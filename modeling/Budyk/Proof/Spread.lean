import Budyk.Lib.Spread
import Budyk.Proof.Holding
import Budyk.Proof.Reader
import Budyk.Storage.QueryAll

/-! What one ring in time order contributes to `query_all`. -/

namespace Budyk.Proof
open Lib Storage

section Indices
variable {first count take k : Nat}

theorem spreadIdx_range (some : 0 < count) (less : k < take) :
    first ≤ spreadIdx first count take k ∧ spreadIdx first count take k < first + count := by
  unfold spreadIdx
  split
  · omega
  · have wrapped : (k * (count - 1)) % 2 ^ 64 ≤ k * (count - 1) := Nat.mod_le _ _
    have scaled : k * (count - 1) ≤ (take - 1) * (count - 1) := Nat.mul_le_mul_right _ (by omega)
    have quotient : (k * (count - 1)) % 2 ^ 64 / (take - 1) ≤ count - 1 :=
      Nat.div_le_of_le_mul (wrapped.trans scaled)
    exact ⟨Nat.le_add_right _ _, by omega⟩

theorem spreadIdx_exact (small : count ≤ 2 ^ 32) (le : take ≤ count) (less : k < take) (several : take ≠ 1) :
    spreadIdx first count take k = first + k * (count - 1) / (take - 1) := by
  have product : k * (count - 1) < 2 ^ 32 * 2 ^ 32 :=
    Nat.mul_lt_mul_of_lt_of_le (by omega) (by omega) (by decide)
  rw [spreadIdx, if_neg several, Nat.mod_eq_of_lt (by simpa using product)]

theorem spreadIdx_last (small : count ≤ 2 ^ 32) (le : take ≤ count) (some : 0 < take) :
    spreadIdx first count take (take - 1) = first + count - 1 := by
  by_cases one : take = 1
  · rw [spreadIdx, if_pos one]
  · rw [spreadIdx_exact small le (by omega) one, Nat.mul_div_cancel_left _ (by omega)]
    omega

theorem spreadIdx_whole (small : count ≤ 2 ^ 32) (less : k < count) :
    spreadIdx first count count k = first + k := by
  by_cases one : count = 1
  · rw [spreadIdx, if_pos one]
    omega
  · rw [spreadIdx_exact small le_rfl less one, Nat.mul_div_cancel _ (by omega)]

end Indices

/-! ## The loop -/

section Loop
variable (r : RingFile) (override : Option Level) (w : Window)

def Picked (i : Nat) (s : Sample) : Prop :=
  ∃ t, r.sampleAt i = some t ∧ w.has t = true ∧ s = relabel override t

def pickAt (i : Nat) : List (Nat × Sample) :=
  match r.sampleAt i with
  | some t => if w.has t then [(i, relabel override t)] else []
  | none => []

variable {r override w}

theorem mem_pickAt {i j : Nat} {s : Sample} : (i, s) ∈ pickAt r override w j ↔ i = j ∧ Picked r override w i s := by
  unfold pickAt Picked
  cases read : r.sampleAt j with
  | none =>
      simp only [List.not_mem_nil, false_iff]
      rintro ⟨rfl, t, other, -⟩
      rw [read] at other
      cases other
  | some t =>
      constructor
      · intro member
        simp only at member
        split at member
        · rename_i inside
          rw [List.mem_singleton, Prod.mk.injEq] at member
          exact ⟨member.1, t, by rw [member.1, read], inside, member.2⟩
        · cases member
      · rintro ⟨rfl, t', read', inside, rfl⟩
        rw [read] at read'
        cases read'
        simp [inside]

theorem run_spreadLoop_succ {first count take left k : Nat} {prev : Option Nat} {out : List (Nat × Sample)}
    (fresh : prev ≠ some (spreadIdx first count take k)) :
    (spreadLoop (readerOf r) override w first count take (left + 1) k prev out).run r.answer =
      (spreadLoop (readerOf r) override w first count take left (k + 1) (some (spreadIdx first count take k))
        (out ++ pickAt r override w (spreadIdx first count take k))).run r.answer := by
  rw [spreadLoop]
  simp only [if_neg fresh, Observer.run_bind, run_read, pickAt]
  cases r.sampleAt (spreadIdx first count take k) with
  | none => simp
  | some t =>
      by_cases older : t.ts < w.sinceNs
      · have outside : w.has t = false := by simp [Window.has]; omega
        simp [older, outside]
      · by_cases past : w.past t
        · have outside : w.has t = false := by simp [Window.has, past]
          simp [older, past, outside]
        · have inside : w.has t = true := by simp [Window.has, past]; omega
          simp [older, past, inside]

/-- The picks are the records of the window at the indices of the spread: an index that repeats is
taken once, and has been taken. -/
theorem mem_spreadLoop {first count take : Nat} (left k : Nat) {prev : Option Nat} {out : List (Nat × Sample)}
    (taken : ∀ i s, prev = some i → Picked r override w i s → (i, s) ∈ out) {i : Nat} {s : Sample} :
    (i, s) ∈ (spreadLoop (readerOf r) override w first count take left k prev out).run r.answer ↔
      (i, s) ∈ out ∨ (∃ k', k ≤ k' ∧ k' < k + left ∧ spreadIdx first count take k' = i) ∧
        Picked r override w i s := by
  induction left generalizing k prev out with
  | zero =>
      rw [spreadLoop, Observer.run_pure]
      constructor
      · exact Or.inl
      · rintro (old | ⟨⟨k', low, high, -⟩, -⟩)
        · exact old
        · omega
  | succ left ih =>
      have split (P : Nat → Prop) : (∃ k', k ≤ k' ∧ k' < k + (left + 1) ∧ P k') ↔
          P k ∨ ∃ k', k + 1 ≤ k' ∧ k' < k + 1 + left ∧ P k' := by
        constructor
        · rintro ⟨k', low, high, holds⟩
          rcases Nat.eq_or_lt_of_le low with rfl | less
          · exact Or.inl holds
          · exact Or.inr ⟨k', less, by omega, holds⟩
        · rintro (here | ⟨k', low, high, holds⟩)
          · exact ⟨k, le_rfl, by omega, here⟩
          · exact ⟨k', by omega, by omega, holds⟩
      rw [split]
      by_cases repeated : prev = some (spreadIdx first count take k)
      · rw [spreadLoop, if_pos repeated, ih (k + 1) taken]
        constructor
        · rintro (old | ⟨later, picked⟩)
          · exact Or.inl old
          · exact Or.inr ⟨Or.inr later, picked⟩
        · rintro (old | ⟨rfl | later, picked⟩)
          · exact Or.inl old
          · exact Or.inl (taken _ s repeated picked)
          · exact Or.inr ⟨later, picked⟩
      · rw [run_spreadLoop_succ repeated, ih (k + 1) (fun j t same picked => by
          cases same
          exact List.mem_append_right _ (mem_pickAt.mpr ⟨rfl, picked⟩)), List.mem_append, mem_pickAt]
        constructor
        · rintro ((old | ⟨rfl, picked⟩) | ⟨later, picked⟩)
          · exact Or.inl old
          · exact Or.inr ⟨Or.inl rfl, picked⟩
          · exact Or.inr ⟨Or.inr later, picked⟩
        · rintro (old | ⟨rfl | later, picked⟩)
          · exact Or.inl (Or.inl old)
          · exact Or.inl (Or.inr ⟨rfl, picked⟩)
          · exact Or.inr ⟨later, picked⟩

end Loop

/-! ## The share of a ring -/

def windowRange (r : RingFile) (w : Window) : Nat × Nat := (spreadRange (readerOf r) w).run r.answer

section Share
variable {r : RingFile} {w : Window} {override : Option Level}

theorem windowRange_bounds (r : RingFile) (w : Window) : r.oldest ≤ (windowRange r w).1 ∧ (windowRange r w).2 ≤ r.widx := by
  have low := (lowerBound_bounds r w.sinceNs).1
  simp only [windowRange, spreadRange, Observer.run_bind]
  by_cases bounded : w.untilNs ≠ 0 ∧ w.untilNs ≠ UINT64_MAX
  · simp only [if_pos bounded, Observer.run_bind, Observer.run_pure]
    exact ⟨low, (lowerBound_bounds r (w.untilNs + 1)).2⟩
  · simp only [if_neg bounded, Observer.run_bind, Observer.run_pure]
    exact ⟨low, le_rfl⟩

theorem windowRange_has (ordered : r.TimeOrdered) {i : Nat} {s : Sample} (live : r.Live i s) :
    w.has s = true ↔ (windowRange r w).1 ≤ i ∧ i < (windowRange r w).2 := by
  obtain ⟨-, -, since⟩ := lowerBound_spec ordered w.sinceNs
  simp only [windowRange, spreadRange, Observer.run_bind]
  by_cases bounded : w.untilNs ≠ 0 ∧ w.untilNs ≠ UINT64_MAX
  · obtain ⟨-, -, until_⟩ := lowerBound_spec ordered (w.untilNs + 1)
    simp only [if_pos bounded, Observer.run_bind, Observer.run_pure]
    rw [← since i s live, ← Nat.not_le, ← until_ i s live]
    simp only [Window.has, Window.past, Bool.and_eq_true, decide_eq_true_eq, Bool.not_eq_true',
      decide_eq_false_iff_not, not_and, gt_iff_lt, Nat.not_lt, Nat.not_le]
    constructor
    · rintro ⟨above, below⟩
      exact ⟨above, Nat.lt_succ_of_le (below bounded.1)⟩
    · rintro ⟨above, below⟩
      exact ⟨above, fun _ => Nat.le_of_lt_succ below⟩
  · simp only [if_neg bounded, Observer.run_bind, Observer.run_pure]
    have small : s.ts ≤ UINT64_MAX := Nat.le_of_lt_succ s.ts_lt
    have within : ¬w.past s := by
      rintro ⟨given, above⟩
      have max : w.untilNs = UINT64_MAX := by
        by_contra other
        exact bounded ⟨given, other⟩
      omega
    rw [← since i s live]
    simp only [Window.has, within, decide_false, Bool.not_false, Bool.and_true, decide_eq_true_eq]
    exact ⟨fun above => ⟨above, live.2.1⟩, And.left⟩

def windowCount (r : RingFile) (w : Window) : Nat := (windowRange r w).2 - (windowRange r w).1

theorem windowCount_le (r : RingFile) (w : Window) : windowCount r w ≤ r.capacity := by
  obtain ⟨low, high⟩ := windowRange_bounds r w
  have lap := r.widx_le_oldest_add
  unfold windowCount
  omega

theorem windowCount_total (some : 0 < windowCount r w) :
    (windowRange r w).1 + windowCount r w = (windowRange r w).2 := by
  unfold windowCount at some ⊢
  omega

theorem take_eq_min (count limit : Nat) : (if count < limit then count else limit) = min count limit := by
  split <;> omega

theorem readerOf_inhabited (some : 0 < windowCount r w) : ¬(readerOf r).empty = true := by
  obtain ⟨low, high⟩ := windowRange_bounds r w
  have pos := r.capacity_pos
  simp only [RingReader.empty, readerOf, Bool.or_eq_true, beq_iff_eq, not_or]
  unfold windowCount at some
  omega

theorem run_queryRingSpread (r : RingFile) (override : Option Level) (w : Window) :
    (queryRingSpread r.capacity override w).run r.answer =
      (spreadLoop (readerOf r) override w (windowRange r w).1 (windowCount r w)
        (min (windowCount r w) w.maxRecords) (min (windowCount r w) w.maxRecords) 0 none []).run r.answer := by
  rw [queryRingSpread, Observer.run_bind, run_make, ← take_eq_min]
  rcases Nat.eq_zero_or_pos (windowCount r w) with zero | some
  · rw [zero, take_eq_min, Nat.zero_min]
    by_cases blank : (readerOf r).empty = true
    · rw [if_pos blank]
      rfl
    · rw [if_neg blank, Observer.run_bind]
      change Observer.run r.answer (if (windowRange r w).1 ≥ (windowRange r w).2 then _ else _) = _
      rw [if_pos (Nat.le_of_sub_eq_zero zero)]
      rfl
  · rw [if_neg (readerOf_inhabited some), Observer.run_bind]
    change Observer.run r.answer (if (windowRange r w).1 ≥ (windowRange r w).2 then _ else _) = _
    rw [if_neg (Nat.not_le_of_gt (Nat.lt_of_sub_pos some))]
    rfl

theorem mem_queryRingSpread {i : Nat} {s : Sample} :
    (i, s) ∈ (queryRingSpread r.capacity override w).run r.answer ↔
      (∃ k, k < min (windowCount r w) w.maxRecords ∧
        spreadIdx (windowRange r w).1 (windowCount r w) (min (windowCount r w) w.maxRecords) k = i) ∧
      Picked r override w i s := by
  rw [run_queryRingSpread, mem_spreadLoop _ _ (fun _ _ absent => by cases absent)]
  simp

theorem live_of_mem_spread {i : Nat} {s : Sample}
    (member : (i, s) ∈ (queryRingSpread r.capacity override w).run r.answer) :
    ∃ t, r.Live i t ∧ w.has t = true ∧ s = relabel override t := by
  obtain ⟨⟨k, less, rfl⟩, t, read, inside, same⟩ := mem_queryRingSpread.mp member
  obtain ⟨low, high⟩ := windowRange_bounds r w
  have some : 0 < windowCount r w := by omega
  obtain ⟨above, below⟩ := @spreadIdx_range (windowRange r w).1 _ _ _ some less
  refine ⟨t, ⟨by omega, ?_, read⟩, inside, same⟩
  have total := windowCount_total some
  omega

variable (ordered : r.TimeOrdered) (sized : r.capacity ≤ 2 ^ 32)
include ordered sized

theorem mem_spread_of_live (unspread : windowCount r w ≤ w.maxRecords) {i : Nat} {t : Sample}
    (live : r.Live i t) (inside : w.has t = true) :
    (i, relabel override t) ∈ (queryRingSpread r.capacity override w).run r.answer := by
  have small : windowCount r w ≤ 2 ^ 32 := (windowCount_le r w).trans sized
  have bounds := (windowRange_has ordered live).mp inside
  rw [mem_queryRingSpread, Nat.min_eq_left unspread]
  refine ⟨⟨i - (windowRange r w).1, ?_, ?_⟩, t, live.2.2, inside, rfl⟩
  · unfold windowCount
    omega
  · rw [spreadIdx_whole small (by unfold windowCount; omega)]
    omega

theorem newest_mem_spread (limit : 0 < w.maxRecords)
    (decodable : ∀ i, r.oldest ≤ i → i < r.widx → (r.sampleAt i).isSome) {j : Nat} {u : Sample}
    (live : r.Live j u) (inside : w.has u = true) :
    ∃ i t, (i, relabel override t) ∈ (queryRingSpread r.capacity override w).run r.answer ∧ r.Live i t ∧
      w.has t = true ∧ u.ts ≤ t.ts := by
  obtain ⟨low, high⟩ := windowRange_bounds r w
  have small : windowCount r w ≤ 2 ^ 32 := (windowCount_le r w).trans sized
  have bounds := (windowRange_has ordered live).mp inside
  have total := windowCount_total (r := r) (w := w) (Nat.sub_pos_of_lt (by omega))
  obtain ⟨t, read⟩ := Option.isSome_iff_exists.mp (decodable ((windowRange r w).2 - 1) (by omega) (by omega))
  have last : r.Live ((windowRange r w).2 - 1) t := ⟨by omega, by omega, read⟩
  have within : w.has t = true := (windowRange_has ordered last).mpr ⟨by omega, by omega⟩
  refine ⟨_, t, ?_, last, within, ?_⟩
  · rw [mem_queryRingSpread]
    refine ⟨⟨min (windowCount r w) w.maxRecords - 1, by omega, ?_⟩, t, read, within, rfl⟩
    rw [spreadIdx_last small (by omega) (by omega)]
    omega
  · rcases Nat.eq_or_lt_of_le (show j ≤ (windowRange r w).2 - 1 by omega) with rfl | less
    · rw [live.2.2] at read
      cases read
      exact le_rfl
    · exact ordered _ _ u t live last less

end Share

/-! ## The indices it visits -/

section Visits
variable {first count limit : Nat}

theorem spreadIdx_of_small (few : count * limit < 2 ^ 64) (several : min count limit ≠ 1) {k : Nat}
    (less : k < min count limit) :
    spreadIdx first count (min count limit) k = first + k * (count - 1) / (min count limit - 1) := by
  have product : k * (count - 1) ≤ count * limit := by
    rw [Nat.mul_comm count]
    exact Nat.mul_le_mul (by omega) (by omega)
  rw [spreadIdx, if_neg several, Nat.mod_eq_of_lt (by omega)]

theorem spreadIdx_lt (few : count * limit < 2 ^ 64) {j k : Nat} (before : j < k) (less : k < min count limit) :
    spreadIdx first count (min count limit) j < spreadIdx first count (min count limit) k := by
  have several : min count limit ≠ 1 := by omega
  rw [spreadIdx_of_small few several (by omega), spreadIdx_of_small few several less]
  exact Nat.add_lt_add_left (spread_strictMono (by omega) (by omega) before) first

theorem spreadIdx_head (few : count * limit < 2 ^ 64) (several : 1 < min count limit) :
    spreadIdx first count (min count limit) 0 = first := by
  rw [spreadIdx_of_small few (by omega) (by omega), Nat.zero_mul, Nat.zero_div, Nat.add_zero]

theorem spreadIdx_end (few : count * limit < 2 ^ 64) (some : 0 < min count limit) :
    spreadIdx first count (min count limit) (min count limit - 1) = first + (count - 1) := by
  by_cases one : min count limit = 1
  · rw [spreadIdx, if_pos one]
    omega
  · rw [spreadIdx_of_small few one (by omega), Nat.mul_div_cancel_left _ (by omega)]

theorem spreadIdx_step (few : count * limit < 2 ^ 64) {k : Nat} (less : k + 1 < min count limit) :
    let step := spreadIdx first count (min count limit) (k + 1) - spreadIdx first count (min count limit) k
    step = (count - 1) / (min count limit - 1) ∨ step = (count - 1) ⌈/⌉ (min count limit - 1) := by
  have several : min count limit ≠ 1 := by omega
  have pos : 0 < min count limit - 1 := by omega
  rw [spreadIdx_of_small few several less, spreadIdx_of_small few several (Nat.lt_of_succ_lt less)]
  simp only [Nat.add_sub_add_left]
  rcases spread_step (n := count - 1) pos k with floor | ceil
  · rw [floor, Nat.add_sub_cancel_left]
    exact Or.inl rfl
  · rw [ceil, Nat.add_sub_cancel_left]
    exact Or.inr rfl

/-- The loop reads each index of the spread, in order: none of them is the one before. -/
theorem asked_spreadLoop (reader : RingReader) (answer : (call : RingCall) → call.Ans) (override : Option Level)
    (w : Window) (take left k : Nat) (prev : Option Nat) (out : List (Nat × Sample))
    (fresh : prev ≠ some (spreadIdx first count take k) ∨ left = 0)
    (distinct : ∀ j, j + 1 < k + left → spreadIdx first count take j ≠ spreadIdx first count take (j + 1)) :
    (spreadLoop reader override w first count take left k prev out).asked answer =
      ((List.range' k left).map (spreadIdx first count take)).map fun i =>
        RingCall.readAt (.search i) (i % reader.cap) := by
  induction left generalizing k prev out with
  | zero => rfl
  | succ left ih =>
      have here : prev ≠ some (spreadIdx first count take k) := fresh.resolve_right (Nat.succ_ne_zero left)
      have next (out : List (Nat × Sample)) :
          (spreadLoop reader override w first count take left (k + 1) (some (spreadIdx first count take k)) out).asked
            answer = ((List.range' (k + 1) left).map (spreadIdx first count take)).map fun i =>
              RingCall.readAt (.search i) (i % reader.cap) := by
        refine ih (k + 1) _ out ?_ fun j less => distinct j (by omega)
        rcases Nat.eq_zero_or_pos left with none | more
        · exact Or.inr none
        · exact Or.inl fun same => distinct k (by omega) (Option.some.inj same)
      rw [spreadLoop]
      simp only [if_neg here, Observer.asked_bind, RingReader.read, readAt, Observer.asked_query,
        Observer.asked_pure, List.append_nil, List.range'_succ, List.map_cons]
      change _ :: Observer.asked answer _ = _ :: _
      congr 1
      split
      · exact next out
      · split
        · exact next out
        · split
          · exact next out
          · exact next _

theorem asked_queryRingSpread {r : RingFile} {override : Option Level} {w : Window} (some : 0 < windowCount r w) :
    (queryRingSpread r.capacity override w).asked r.answer =
      (RingReader.make r.capacity >>= fun reader => spreadRange reader w).asked r.answer ++
        (spreadLoop (readerOf r) override w (windowRange r w).1 (windowCount r w)
          (min (windowCount r w) w.maxRecords) (min (windowCount r w) w.maxRecords) 0 none []).asked r.answer := by
  rw [queryRingSpread, Observer.asked_bind, run_make, if_neg (readerOf_inhabited some), Observer.asked_bind,
    Observer.asked_bind, run_make, List.append_assoc, ← take_eq_min]
  change _ ++ (_ ++ Observer.asked r.answer (if (windowRange r w).1 ≥ (windowRange r w).2 then _ else _)) = _
  rw [if_neg (Nat.not_le_of_gt (Nat.lt_of_sub_pos some))]
  rfl

/-- The records read of a window, after the search for its ends: as many as asked for where there are as many, and
evenly spread from the first to the last. -/
theorem query_ring_spread_even (r : RingFile) (override : Option Level) (w : Window) (some : 1 ≤ windowCount r w)
    (limit : 1 ≤ w.maxRecords) (few : windowCount r w * w.maxRecords < 2 ^ 64) :
    let count := windowCount r w
    let take := min count w.maxRecords
    ∃ visited : List Nat,
      (queryRingSpread r.capacity override w).asked r.answer =
        (RingReader.make r.capacity >>= fun reader => spreadRange reader w).asked r.answer ++
          visited.map (fun i => RingCall.readAt (.search i) (i % r.capacity)) ∧
      visited.length = take ∧ visited.Pairwise (· < ·) ∧
      (∀ i ∈ visited, (windowRange r w).1 ≤ i ∧ i < (windowRange r w).2) ∧
      visited.getLast? = .some ((windowRange r w).2 - 1) ∧
      (1 < take → visited.head? = .some (windowRange r w).1) ∧
      ∀ k i j, visited[k]? = .some i → visited[k + 1]? = .some j →
        j - i = (count - 1) / (take - 1) ∨ j - i = (count - 1) ⌈/⌉ (take - 1) := by
  intro count take
  have total : (windowRange r w).1 + count = (windowRange r w).2 := windowCount_total some
  have positive : 0 < take := lt_min some limit
  have index {k i : Nat} (held : ((List.range take).map (spreadIdx (windowRange r w).1 count take))[k]? = .some i) :
      k < take ∧ spreadIdx (windowRange r w).1 count take k = i := by
    have inside : k < take := by
      obtain ⟨less, -⟩ := List.getElem?_eq_some_iff.mp held
      simpa using less
    rw [List.getElem?_map, List.getElem?_range inside] at held
    exact ⟨inside, Option.some.inj held⟩
  refine ⟨(List.range take).map (spreadIdx (windowRange r w).1 count take), ?_, by simp, ?_, ?_, ?_, ?_, ?_⟩
  · rw [asked_queryRingSpread some, asked_spreadLoop _ _ _ _ _ _ _ _ _ (.inl (by simp)), List.range_eq_range']
    · rfl
    · exact fun j less => Nat.ne_of_lt (spreadIdx_lt few (Nat.lt_succ_self j) (by omega))
  · rw [List.pairwise_map]
    refine List.pairwise_lt_range.imp_of_mem ?_
    intro j k _ inside before
    exact spreadIdx_lt few before (List.mem_range.mp inside)
  · intro i member
    obtain ⟨k, inside, rfl⟩ := List.mem_map.mp member
    have bounds := @spreadIdx_range (windowRange r w).1 count take k some (List.mem_range.mp inside)
    omega
  · rw [List.getLast?_map, List.getLast?_range, if_neg (Nat.ne_of_gt positive), Option.map_some,
      spreadIdx_end few positive]
    congr 1
    omega
  · intro several
    rw [List.head?_map, List.head?_range, if_neg (Nat.ne_of_gt positive), Option.map_some, spreadIdx_head few several]
  · intro k i j here next
    obtain ⟨-, rfl⟩ := index here
    obtain ⟨less, rfl⟩ := index next
    exact spreadIdx_step few less

theorem query_ring_spread_even_three : ∃ visited : List Nat, visited.length = 2 ∧ visited.Pairwise (· < ·) ∧
    visited.getLast? = some 2 := by
  obtain ⟨-, -, capacity, index, held⟩ := appendAll_holding 4 (by decide) [l3Record 1, l3Record 2, l3Record 3]
  set r := (RingFile.create 1 4 (by decide)).appendAll [l3Record 1, l3Record 2, l3Record 3]
  have ordered : r.TimeOrdered := held.timeOrdered index fun i j _ less high => by
    obtain ⟨rfl, rfl⟩ | ⟨rfl, rfl⟩ | ⟨rfl, rfl⟩ : i = 0 ∧ j = 1 ∨ i = 0 ∧ j = 2 ∨ i = 1 ∧ j = 2 := by
      simp only [List.length_cons, List.length_nil] at high
      omega
    all_goals decide
  obtain ⟨low, high⟩ := windowRange_bounds r ⟨0, 0, 2⟩
  have live (i : Nat) (inside : i < 3) : r.Live i (([l3Record 1, l3Record 2, l3Record 3].map
      FittingRecord.sample).getD i 0) :=
    ⟨by rw [RingFile.oldest, RingFile.count, index, capacity]; simp, by rw [index]; exact inside,
      held.holds i (by simp) inside⟩
  have first := (windowRange_has (w := ⟨0, 0, 2⟩) ordered (live 0 (by decide))).mp (by decide)
  have last := (windowRange_has (w := ⟨0, 0, 2⟩) ordered (live 2 (by decide))).mp (by decide)
  rw [index] at high
  have three : windowCount r ⟨0, 0, 2⟩ = 3 := by
    unfold windowCount
    simp only [List.length_cons, List.length_nil] at high
    omega
  obtain ⟨visited, -, length, sorted, -, final, -⟩ := query_ring_spread_even r none ⟨0, 0, 2⟩ (by omega) (by decide)
    (by rw [three]; decide)
  refine ⟨visited, by rw [length, three]; rfl, sorted, ?_⟩
  rw [final]
  congr 1
  simp only [List.length_cons, List.length_nil] at high
  omega

end Visits

/-! ## The share of a manager's ring -/

theorem run_none (override : Option Level) (w : Window) :
    (queryRingSpread (TierManager.capacity none) override w).run (TierManager.answer none) = [] := rfl

theorem anyIn_none (lo hi : Nat) : anyIn none lo hi = false := rfl

theorem anyIn_some {r : RingFile} (ordered : r.TimeOrdered) (lo hi : Nat) :
    anyIn (some r) lo hi = true ↔ ∃ i s, r.Live i s ∧ lo < s.ts ∧ s.ts ≤ hi := by
  rw [← anyIn_spec ordered lo hi, anyIn]
  simp only [TierManager.capacity, TierManager.answer, Option.elim_some, Observer.run_bind, run_make]

variable {m : TierManager} {w : Window} {leaf : Leaf} {override : Option Level}

theorem mem_spread {p : Pick} {r : RingFile} (file : m.rings leaf = some r) :
    p ∈ m.spread w leaf override ↔
      p.leaf = leaf ∧ (p.idx, p.sample) ∈ (queryRingSpread r.capacity override w).run r.answer := by
  rw [TierManager.spread, file, List.mem_map]
  constructor
  · rintro ⟨⟨i, s⟩, member, rfl⟩
    exact ⟨rfl, member⟩
  · rintro ⟨rfl, member⟩
    exact ⟨_, member, rfl⟩

theorem live_of_spread {p : Pick} (member : p ∈ m.spread w leaf override) :
    p.leaf = leaf ∧ ∃ r t, m.rings leaf = some r ∧ r.Live p.idx t ∧ w.has t = true ∧
      p.sample = relabel override t := by
  cases file : m.rings leaf with
  | none =>
      rw [TierManager.spread, file, run_none] at member
      cases member
  | some r =>
      obtain ⟨same, read⟩ := (mem_spread file).mp member
      obtain ⟨t, live, inside, passed⟩ := live_of_mem_spread read
      exact ⟨same, r, t, rfl, live, inside, passed⟩

end Budyk.Proof
