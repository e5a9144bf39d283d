import Budyk.Lib.Runs
import Budyk.Proof.Spread

/-! Which picks `query_all` merges, and which of them it returns. -/

namespace Budyk.Proof
open Lib Storage

theorem thinLoop_eq (slice : Nat → Nat) (merged : List Pick) (kept : List Pick) (q : Pick) :
    thinLoop slice merged (slice q.ts) (kept ++ [q]) =
      kept ++ lastOfRuns (fun p : Pick => slice p.ts) (q :: merged) := by
  induction merged generalizing kept q with
  | nil => rfl
  | cons p merged ih =>
      rw [thinLoop, lastOfRuns]
      by_cases same : slice p.ts = slice q.ts
      · rw [if_pos same, if_pos same.symm, List.dropLast_concat, ← same, ih]
      · rw [if_neg same, if_neg (fun other => same other.symm), ih, List.append_assoc]
        rfl

/-- The loop keeps the last pick of every slice: the first of all, being no one's successor, starts
a slice whatever `last_slice` began as. -/
theorem thinLoop_start (slice : Nat → Nat) (merged : List Pick) (lastSlice : Nat) :
    thinLoop slice merged lastSlice [] = lastOfRuns (fun p : Pick => slice p.ts) merged := by
  cases merged with
  | nil => rfl
  | cons p merged =>
      have started := thinLoop_eq slice merged [] p
      rw [thinLoop]
      split
      · rename_i same
        rw [← same]
        exact started
      · exact started

theorem thin_of_le {n : Nat} {merged : List Pick} (le : merged.length ≤ n) : thin n merged = merged := by
  rw [thin, if_neg (Nat.not_lt.mpr le)]

theorem thin_of_gt {n : Nat} {merged : List Pick} {front back : Pick} (more : merged.length > n)
    (first : merged.head? = some front) (last : merged.getLast? = some back) :
    thin n merged =
      lastOfRuns (fun p : Pick => sliceOf front.ts ((back.ts - front.ts + 1) % 2 ^ 64) n p.ts) merged := by
  rw [thin, if_pos more, first, last]
  exact thinLoop_start _ merged _

theorem exists_ends {merged : List Pick} (some : merged ≠ []) :
    ∃ front back, merged.head? = .some front ∧ merged.getLast? = .some back :=
  ⟨_, _, List.head?_eq_some_head some, List.getLast?_eq_some_getLast some⟩

theorem thin_sublist (n : Nat) (merged : List Pick) : (thin n merged).Sublist merged := by
  by_cases more : merged.length > n
  · have some : merged ≠ [] := by
      rintro rfl
      simp at more
    obtain ⟨front, back, first, last⟩ := exists_ends some
    rw [thin_of_gt more first last]
    exact lastOfRuns_sublist merged
  · rw [thin_of_le (Nat.not_lt.mp more)]

theorem thin_getLast? (n : Nat) (merged : List Pick) : (thin n merged).getLast? = merged.getLast? := by
  by_cases more : merged.length > n
  · have some : merged ≠ [] := by
      rintro rfl
      simp at more
    obtain ⟨front, back, first, last⟩ := exists_ends some
    rw [thin_of_gt more first last, lastOfRuns_getLast?]
  · rw [thin_of_le (Nat.not_lt.mp more)]

/-! ## Cover -/

theorem seenIn_iff {seenTs : List Nat} (sorted : seenTs.Pairwise (· ≤ ·)) (lo hi : Nat) :
    seenIn seenTs lo hi = true ↔ ∃ t ∈ seenTs, lo < t ∧ t ≤ hi := by
  induction seenTs with
  | nil => simp [seenIn]
  | cons t rest ih =>
      obtain ⟨least, tail⟩ := List.pairwise_cons.mp sorted
      by_cases above : lo < t
      · have found : seenIn (t :: rest) lo hi = decide (t ≤ hi) := by simp [seenIn, above]
        rw [found, decide_eq_true_eq]
        constructor
        · exact fun below => ⟨t, List.mem_cons_self, above, below⟩
        · rintro ⟨t', member, -, below⟩
          rcases List.mem_cons.mp member with rfl | later
          · exact below
          · exact (least t' later).trans below
      · have skipped : seenIn (t :: rest) lo hi = seenIn rest lo hi := by simp [seenIn, above]
        rw [skipped, ih tail]
        constructor
        · rintro ⟨t', member, bounds⟩
          exact ⟨t', List.mem_cons_of_mem _ member, bounds⟩
        · rintro ⟨t', member, above', below⟩
          rcases List.mem_cons.mp member with rfl | later
          · exact absurd above' above
          · exact ⟨t', later, above', below⟩

def FinerIn (m : TierManager) (c : Coarse) (lo hi : Nat) : Prop :=
  ∃ leaf ∈ m.finer c, ∃ r i s, m.rings leaf = some r ∧ r.Live i s ∧ lo < s.ts ∧ s.ts ≤ hi

def RingsOrdered (m : TierManager) : Prop :=
  ∀ leaf ∈ m.leaves, ∀ r, m.rings leaf = some r → r.TimeOrdered

section Cover
variable {m : TierManager} {w : Window}

theorem finer_subset (c : Coarse) : m.finer c ⊆ m.leaves := by
  intro leaf member
  cases c with
  | l2 => exact List.mem_append_left _ (List.mem_append_left _ member)
  | l1 => exact List.mem_append_left _ member

theorem coarse_mem_leaves (c : Coarse) : c.leaf ∈ m.leaves := by
  cases c <;> simp [TierManager.leaves, TierManager.finer, Coarse.leaf]

theorem mem_fine {p : Pick} :
    p ∈ m.fine w ↔ ∃ leaf override, (leaf = .tier1 ∧ override = none ∨
      ∃ ring ∈ m.custom, leaf = .level ring.name ∧ override = some ring.levelId) ∧
      p ∈ m.spread w leaf override := by
  rw [TierManager.fine, List.mem_append, List.mem_flatMap]
  constructor
  · rintro (tier1 | ⟨ring, known, member⟩)
    · exact ⟨_, _, Or.inl ⟨rfl, rfl⟩, tier1⟩
    · exact ⟨_, _, Or.inr ⟨ring, known, rfl, rfl⟩, member⟩
  · rintro ⟨leaf, override, ⟨rfl, rfl⟩ | ⟨ring, known, rfl, rfl⟩, member⟩
    · exact Or.inl member
    · exact Or.inr ⟨ring, known, member⟩

theorem mem_finer_l2 {leaf : Leaf} :
    leaf ∈ m.finer .l2 ↔ leaf = .tier1 ∨ ∃ ring ∈ m.custom, leaf = .level ring.name := by
  simp [TierManager.finer, eq_comm]

theorem live_of_seen {c : Coarse} {p : Pick} (member : p ∈ (m.seen w c).flatten) :
    ∃ leaf ∈ m.finer c, ∃ r s, m.rings leaf = some r ∧ r.Live p.idx s ∧ s.ts = p.ts := by
  have shared (leaf : Leaf) (override : Option Level) (inside : leaf ∈ m.finer c)
      (picked : p ∈ m.spread w leaf override) :
      ∃ leaf ∈ m.finer c, ∃ r s, m.rings leaf = some r ∧ r.Live p.idx s ∧ s.ts = p.ts := by
    obtain ⟨-, r, t, file, live, -, passed⟩ := live_of_spread picked
    refine ⟨leaf, inside, r, t, file, live, ?_⟩
    rw [Pick.ts, passed]
    cases override <;> rfl
  have ofFine (picked : p ∈ m.fine w) :
      ∃ leaf ∈ m.finer c, ∃ r s, m.rings leaf = some r ∧ r.Live p.idx s ∧ s.ts = p.ts := by
    obtain ⟨leaf, override, place, member⟩ := mem_fine.mp picked
    have inside : leaf ∈ m.finer .l2 := by
      rw [mem_finer_l2]
      rcases place with ⟨tier1, -⟩ | ⟨ring, known, named, -⟩
      · exact Or.inl tier1
      · exact Or.inr ⟨ring, known, named⟩
    refine shared leaf override ?_ member
    cases c with
    | l2 => exact inside
    | l1 => exact List.mem_append_left _ inside
  cases c with
  | l2 => exact ofFine (by simpa [TierManager.seen] using member)
  | l1 =>
      simp only [TierManager.seen, List.flatten_cons, List.flatten_nil, List.append_nil,
        List.mem_append] at member
      rcases member with first | second
      · exact ofFine first
      · exact shared .tier2 none (by simp [TierManager.finer]) second

theorem covered_iff (ordered : RingsOrdered m) (c : Coarse) (s : Sample) :
    covered (m.foldNs c) (((m.seen w c).flatten.map Pick.ts).mergeSort (· ≤ ·)) ((m.finer c).map m.rings) s
      = true ↔ s.folded = true ∧ FinerIn m c (s.ts - m.foldNs c) s.ts := by
  have floor : (if s.ts > m.foldNs c then s.ts - m.foldNs c else 0) = s.ts - m.foldNs c := by
    split <;> omega
  have sorted : (((m.seen w c).flatten.map Pick.ts).mergeSort (· ≤ ·)).Pairwise (· ≤ ·) := by
    have merged : (((m.seen w c).flatten.map Pick.ts).mergeSort (· ≤ ·)).Pairwise
        fun a b => decide (a ≤ b) = true :=
      List.pairwise_mergeSort (by simp only [decide_eq_true_eq]; omega)
        (by simp only [Bool.or_eq_true, decide_eq_true_eq]; omega) _
    exact merged.imp of_decide_eq_true
  simp only [covered, floor, Bool.and_eq_true, Bool.or_eq_true]
  refine and_congr_right fun _ => ?_
  rw [seenIn_iff sorted, List.any_eq_true]
  constructor
  · rintro (⟨t, member, above, below⟩ | ⟨ring, member, found⟩)
    · rw [List.mem_mergeSort] at member
      obtain ⟨p, picked, rfl⟩ := List.mem_map.mp member
      obtain ⟨leaf, inside, r, u, file, live, same⟩ := live_of_seen picked
      exact ⟨leaf, inside, r, p.idx, u, file, live, same ▸ above, same ▸ below⟩
    · obtain ⟨leaf, inside, rfl⟩ := List.mem_map.mp member
      cases file : m.rings leaf with
      | none =>
          rw [file, anyIn_none] at found
          cases found
      | some r =>
          rw [file, anyIn_some (ordered leaf (finer_subset c inside) r file)] at found
          obtain ⟨i, u, live, bounds⟩ := found
          exact ⟨leaf, inside, r, i, u, file, live, bounds⟩
  · rintro ⟨leaf, inside, r, i, u, file, live, bounds⟩
    refine Or.inr ⟨m.rings leaf, List.mem_map_of_mem inside, ?_⟩
    rw [file, anyIn_some (ordered leaf (finer_subset c inside) r file)]
    exact ⟨i, u, live, bounds⟩

theorem mem_uncovered (ordered : RingsOrdered m) {c : Coarse} {p : Pick} :
    p ∈ m.uncovered w c ↔ p ∈ m.spread w c.leaf none ∧
      ¬(m.foldNs c ≠ 0 ∧ p.sample.folded = true ∧ FinerIn m c (p.ts - m.foldNs c) p.ts) := by
  unfold TierManager.uncovered dropCovered
  by_cases off : m.foldNs c = 0
  · simp [off]
  · rw [if_neg off, List.mem_filter]
    refine and_congr_right fun _ => ?_
    rw [Bool.not_eq_true', ← Bool.not_eq_true, covered_iff ordered]
    simp [off, Pick.ts]

theorem mem_picks {p : Pick} : p ∈ m.picks w ↔ p ∈ m.fine w ∨ ∃ c, p ∈ m.uncovered w c := by
  rw [TierManager.picks, List.mem_append, List.mem_append]
  constructor
  · rintro ((fine | l2) | l1)
    · exact Or.inl fine
    · exact Or.inr ⟨.l2, l2⟩
    · exact Or.inr ⟨.l1, l1⟩
  · rintro (fine | ⟨c, member⟩)
    · exact Or.inl (Or.inl fine)
    · cases c with
      | l2 => exact Or.inl (Or.inr member)
      | l1 => exact Or.inr member

theorem mem_picks_coarse (ordered : RingsOrdered m) {c : Coarse} {p : Pick} (place : p.leaf = c.leaf) :
    p ∈ m.picks w ↔ p ∈ m.uncovered w c := by
  rw [mem_picks]
  constructor
  · rintro (fine | ⟨c', member⟩)
    · obtain ⟨leaf, override, named, member⟩ := mem_fine.mp fine
      have inside : leaf ∈ m.leaves := finer_subset .l2 (mem_finer_l2.mpr (named.imp And.left
        fun ⟨ring, known, same, _⟩ => ⟨ring, known, same⟩))
      have same := (live_of_spread member).1
      rw [place] at same
      rcases named with ⟨rfl, -⟩ | ⟨ring, -, rfl, -⟩ <;> cases c <;> cases same
    · have same := (live_of_spread ((mem_uncovered ordered).mp member).1).1
      rw [place] at same
      rwa [show c = c' by cases c <;> cases c' <;> first | rfl | cases same]
  · exact fun member => Or.inr ⟨c, member⟩

end Cover

/-! ## The result -/

theorem queryAll_some {std : TimeSort} {m : TierManager} {w : Window} {out : List Pick}
    (answered : m.queryAll std w = some out) : out = thin w.maxRecords (std.sort (m.picks w)) := by
  unfold TierManager.queryAll at answered
  split at answered
  · cases answered
  · exact (Option.some.inj answered).symm

theorem mem_queryAll_iff {std : TimeSort} {m : TierManager} {w : Window} {out : List Pick}
    (answered : m.queryAll std w = some out) (unthinned : (m.picks w).length ≤ w.maxRecords) {p : Pick} :
    p ∈ out ↔ p ∈ m.picks w := by
  rw [queryAll_some answered, thin_of_le (by rwa [(std.perm _).length_eq]), (std.perm _).mem_iff]

end Budyk.Proof
