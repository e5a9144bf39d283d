import Budyk.Lib.Bisect
import Budyk.Storage.RingReader

/-! The reader on a ring at rest. -/

namespace Budyk.Proof
open Lib Storage

def readerOf (r : RingFile) : RingReader := ⟨r.capacity, r.oldest, r.widx⟩

variable (r : RingFile)

theorem count_eq_ite : r.count = if r.widx < r.capacity then r.widx else r.capacity := by
  unfold RingFile.count
  split <;> omega

theorem run_make : (RingReader.make r.capacity).run r.answer = readerOf r := by
  simp only [RingReader.make, writeIndex, Observer.run_bind, Observer.run_query, Observer.run_pure,
    RingFile.answer, RingFile.writeIndex]
  rw [readerOf, RingFile.oldest, count_eq_ite]
  rfl

theorem run_read (i : Nat) : ((readerOf r).read i).run r.answer = r.sampleAt i := by
  simp only [RingReader.read, readAt, Observer.run_bind, Observer.run_query, Observer.run_pure,
    RingFile.answer, readerOf, r.readAt_mod]
  rfl

def nextTs (r : RingFile) (i : Nat) : Option Nat :=
  ((List.range' i (r.widx - i)).findSome? r.sampleAt).map SampleOf.ts

theorem run_tsFromLoop (left k : Nat) :
    ((readerOf r).tsFromLoop left k).run r.answer =
      ((List.range' k left).findSome? r.sampleAt).map SampleOf.ts := by
  induction left generalizing k with
  | zero => rfl
  | succ left ih =>
      rw [RingReader.tsFromLoop, Observer.run_bind, run_read, List.range'_succ, List.findSome?_cons]
      cases r.sampleAt k with
      | none => exact ih (k + 1)
      | some s => rfl

theorem run_tsFrom (i : Nat) : ((readerOf r).tsFrom i).run r.answer = nextTs r i :=
  run_tsFromLoop r _ i

variable {r}

theorem nextTs_none {i : Nat} (none : nextTs r i = none) {j : Nat} (low : i ≤ j) (high : j < r.widx) :
    r.sampleAt j = .none := by
  rw [nextTs, Option.map_eq_none_iff, List.findSome?_eq_none_iff] at none
  exact none j (List.mem_range'_1.mpr ⟨low, by omega⟩)

theorem nextTs_some {i t : Nat} (next : nextTs r i = some t) :
    ∃ j s, i ≤ j ∧ j < r.widx ∧ r.sampleAt j = some s ∧ s.ts = t ∧
      ∀ k, i ≤ k → k < j → r.sampleAt k = none := by
  obtain ⟨s, found, ts⟩ := Option.map_eq_some_iff.mp next
  obtain ⟨before, j, after, split, read, skipped⟩ := List.findSome?_eq_some_iff.mp found
  have member : j ∈ List.range' i (r.widx - i) := by rw [split]; simp
  have bounds := List.mem_range'_1.mp member
  refine ⟨j, s, bounds.1, by omega, read, ts, fun k low high => skipped k ?_⟩
  -- What stands before `j` in the range is exactly what is below `j`.
  have inside : k ∈ before ++ j :: after := by
    rw [← split]
    exact List.mem_range'_1.mpr ⟨low, by omega⟩
  have sorted : (before ++ j :: after).Pairwise (· < ·) := by
    rw [← split]
    exact List.pairwise_lt_range'
  rcases List.mem_append.mp inside with first | rest
  · exact first
  · rcases List.mem_cons.mp rest with rfl | later
    · omega
    · have := (List.pairwise_cons.mp (List.pairwise_append.mp sorted).2.1).1 k later
      omega

theorem nextTs_self {i : Nat} {s : Sample} (high : i < r.widx) (read : r.sampleAt i = some s) :
    nextTs r i = some s.ts := by
  rw [nextTs, show r.widx - i = (r.widx - i - 1) + 1 by omega, List.range'_succ, List.findSome?_cons, read]
  rfl

def probe (r : RingFile) (ts i : Nat) : Bool := (nextTs r i).all (ts ≤ ·)

theorem run_lowerBoundLoop (r : RingFile) (ts lo hi : Nat) :
    ((readerOf r).lowerBoundLoop ts lo hi).run r.answer = bisect (probe r ts) lo hi := by
  induction size : hi - lo using Nat.strongRecOn generalizing lo hi with
  | ind size' ih =>
      rw [RingReader.lowerBoundLoop]
      by_cases less : lo < hi
      · rw [if_pos less, Observer.run_bind, run_tsFrom]
        cases next : nextTs r (lo + (hi - lo) / 2) with
        | none =>
            rw [bisect_true less (by simp [probe, next])]
            exact ih _ (by omega) _ _ rfl
        | some t =>
            by_cases newer : t ≥ ts
            · rw [bisect_true less (by simpa [probe, next] using newer)]
              simp only [if_pos newer]
              exact ih _ (by omega) _ _ rfl
            · rw [bisect_false less (by simpa [probe, next] using newer)]
              simp only [if_neg newer]
              exact ih _ (by omega) _ _ rfl
      · rw [if_neg less, bisect_empty less]
        rfl

theorem probe_mono (ordered : r.TimeOrdered) (ts : Nat) {i j : Nat} (low : r.oldest ≤ i) (le : i ≤ j)
    (holds : probe r ts i = true) : probe r ts j = true := by
  cases next : nextTs r j with
  | none => simp [probe, next]
  | some t =>
      obtain ⟨j', s, after, high, read, rfl, -⟩ := nextTs_some next
      cases earlier : nextTs r i with
      | none =>
          rw [nextTs_none earlier (by omega) high] at read
          cases read
      | some t' =>
          obtain ⟨i', s', after', high', read', rfl, first⟩ := nextTs_some earlier
          have older : ts ≤ s'.ts := by simpa [probe, earlier] using holds
          have before : i' ≤ j' := by
            by_contra past
            rw [first j' (by omega) (by omega)] at read
            cases read
          have newer : s'.ts ≤ s.ts := by
            rcases Nat.eq_or_lt_of_le before with rfl | less
            · rw [read] at read'
              cases read'
              exact le_rfl
            · exact ordered i' j' s' s ⟨by omega, high', read'⟩ ⟨by omega, high, read⟩ less
          simpa [probe, next] using older.trans newer

theorem run_lowerBound (r : RingFile) (ts : Nat) :
    ((readerOf r).lowerBound ts).run r.answer = bisect (probe r ts) r.oldest r.widx :=
  run_lowerBoundLoop r ts r.oldest r.widx

theorem lowerBound_bounds (r : RingFile) (ts : Nat) :
    let b := ((readerOf r).lowerBound ts).run r.answer
    r.oldest ≤ b ∧ b ≤ r.widx := by
  have total := r.oldest_add_count
  rw [run_lowerBound]
  exact bisect_bounds (probe r ts) r.oldest r.widx (by omega)

theorem lowerBound_spec (ordered : r.TimeOrdered) (ts : Nat) :
    let b := ((readerOf r).lowerBound ts).run r.answer
    r.oldest ≤ b ∧ b ≤ r.widx ∧ ∀ i s, r.Live i s → (ts ≤ s.ts ↔ b ≤ i) := by
  obtain ⟨low, high⟩ := lowerBound_bounds r ts
  refine ⟨low, high, ?_⟩
  rintro i s ⟨low, high, read⟩
  rw [run_lowerBound, ← bisect_spec (probe r ts) r.oldest r.widx
    (fun i j a b _ => probe_mono ordered ts a b) i low high]
  simp [probe, nextTs_self high read]

theorem anyIn_spec (ordered : r.TimeOrdered) (lo hi : Nat) :
    ((readerOf r).anyIn lo hi).run r.answer = true ↔ ∃ i s, r.Live i s ∧ lo < s.ts ∧ s.ts ≤ hi := by
  by_cases trivial : ((readerOf r).empty || decide (hi ≤ lo)) = true
  · rw [RingReader.anyIn, if_pos trivial]
    simp only [Observer.run_pure, Bool.false_eq_true, false_iff]
    rintro ⟨i, s, ⟨low, high, -⟩, above, below⟩
    have pos := r.capacity_pos
    rcases Bool.or_eq_true_iff.mp trivial with none | crossed
    · simp only [RingReader.empty, readerOf, Bool.or_eq_true, beq_iff_eq] at none
      omega
    · have := of_decide_eq_true crossed
      omega
  · obtain ⟨low, high, split⟩ := lowerBound_spec ordered (lo + 1)
    rw [RingReader.anyIn, if_neg trivial, Observer.run_bind, Observer.run_bind, run_tsFrom]
    set b := ((readerOf r).lowerBound (lo + 1)).run r.answer
    cases next : nextTs r b with
    | none =>
        simp only [Observer.run_pure, Bool.false_eq_true, false_iff]
        rintro ⟨i, s, live, above, below⟩
        have after := (split i s live).mp above
        have read := live.2.2
        rw [nextTs_none next after live.2.1] at read
        cases read
    | some t =>
        obtain ⟨j, s, after, bound, read, rfl, first⟩ := nextTs_some next
        have live : r.Live j s := ⟨low.trans after, bound, read⟩
        simp only [Observer.run_pure, decide_eq_true_eq]
        constructor
        · exact fun below => ⟨j, s, live, (split j s live).mpr after, below⟩
        · rintro ⟨i, s', live', above, below⟩
          have after' := (split i s' live').mp above
          have read' := live'.2.2
          rcases Nat.lt_trichotomy i j with less | rfl | more
          · rw [first i after' less] at read'
            cases read'
          · rw [read] at read'
            cases read'
            exact below
          · exact (ordered j i s s' live live' more).trans below

/-! ## Ending -/

section Ends
variable (reader : RingReader)

theorem tsFromLoop_ends (left k : Nat) : (reader.tsFromLoop left k).EndsWithin left := by
  induction left generalizing k with
  | zero => exact Observer.endsWithin_pure 0 none
  | succ left ih =>
      rw [RingReader.tsFromLoop, Nat.add_comm]
      have read : (reader.read k).EndsWithin 1 :=
        (Observer.endsWithin_query 0 _).bind fun buf => Observer.endsWithin_pure 0 (buf.bind decodeRecord)
      apply read.bind
      intro found
      cases found with
      | none => exact ih (k + 1)
      | some s => exact Observer.endsWithin_pure left (some s.ts)

theorem tsFrom_ends (logical : Nat) : (reader.tsFrom logical).EndsWithin (reader.stop - logical) :=
  tsFromLoop_ends reader _ logical

/-- Each probe reads no more than the records from `base` on, and a range below `2 ^ k` is halved `k` times. -/
theorem lowerBoundLoop_ends (ts base : Nat) {lo hi k : Nat} (low : base ≤ lo) (small : hi - lo < 2 ^ k) :
    (reader.lowerBoundLoop ts lo hi).EndsWithin (k * (reader.stop - base)) := by
  induction k generalizing lo hi with
  | zero =>
      have none : ¬lo < hi := by
        rw [Nat.pow_zero] at small
        omega
      rw [RingReader.lowerBoundLoop, if_neg none]
      exact Observer.endsWithin_pure _ lo
  | succ k ih =>
      rw [Nat.pow_succ] at small
      rw [RingReader.lowerBoundLoop]
      by_cases less : lo < hi
      · rw [if_pos less, Nat.succ_mul, Nat.add_comm]
        have probe := (tsFrom_ends reader (lo + (hi - lo) / 2)).mono (by omega : _ ≤ reader.stop - base)
        apply probe.bind
        intro found
        have left := ih low (by omega : lo + (hi - lo) / 2 - lo < 2 ^ k)
        have right := ih (by omega : base ≤ lo + (hi - lo) / 2 + 1) (by omega : hi - (lo + (hi - lo) / 2 + 1) < 2 ^ k)
        cases found with
        | none => exact left
        | some t =>
            simp only
            split
            · exact left
            · exact right
      · rw [if_neg less]
        exact Observer.endsWithin_pure _ lo

end Ends

/-! ## The search -/

/-- The search over a live range in time order, undecodable records anywhere in it; it ends on any ring, whatever is
read from it. -/
theorem ring_search_with_holes (r : RingFile) :
    (r.TimeOrdered →
      (∀ ts, let b := (RingReader.make r.capacity >>= fun reader => reader.lowerBound ts).run r.answer
        r.oldest ≤ b ∧ b ≤ r.widx ∧ ∀ i s, r.Live i s → (i < b → s.ts < ts) ∧ (b ≤ i → ts ≤ s.ts)) ∧
      ∀ lo hi, (RingReader.make r.capacity >>= fun reader => reader.anyIn lo hi).run r.answer = true ↔
        ∃ i s, r.Live i s ∧ lo < s.ts ∧ s.ts ≤ hi) ∧
    ∀ reader : RingReader,
      (∀ logical, (reader.tsFrom logical).EndsWithin (reader.stop - logical)) ∧
      ∀ ts k, reader.stop - reader.oldest < 2 ^ k →
        (reader.lowerBound ts).EndsWithin (k * (reader.stop - reader.oldest)) := by
  refine ⟨fun ordered => ⟨fun ts => ?_, fun lo hi => ?_⟩, fun reader => ⟨tsFrom_ends reader, fun ts k small => ?_⟩⟩
  · rw [Observer.run_bind, run_make]
    obtain ⟨low, high, split⟩ := lowerBound_spec ordered ts
    refine ⟨low, high, fun i s live => ⟨fun before => ?_, (split i s live).mpr⟩⟩
    by_contra newer
    have after := (split i s live).mp (not_lt.mp newer)
    omega
  · rw [Observer.run_bind, run_make]
    exact anyIn_spec ordered lo hi
  · exact lowerBoundLoop_ends reader ts reader.oldest le_rfl small

end Budyk.Proof
