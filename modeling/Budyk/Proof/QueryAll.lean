import Budyk.Proof.Cover
import Budyk.Proof.Query

/-! The result of `query_all` over any rings in time order. -/

namespace Budyk.Proof
open Lib Storage

def InSlice (lo span maxRecords n ts : Nat) : Prop :=
  n * span ≤ (ts - lo) * maxRecords ∧ (ts - lo) * maxRecords < (n + 1) * span

instance (lo span maxRecords n ts : Nat) : Decidable (InSlice lo span maxRecords n ts) :=
  inferInstanceAs (Decidable (_ ∧ _))

theorem sliceOf_eq_iff {lo span maxRecords n ts : Nat} (some : 0 < span) :
    sliceOf lo span maxRecords ts = n ↔ InSlice lo span maxRecords n ts := by
  rw [sliceOf, InSlice, Nat.div_eq_iff some, Nat.add_mul, Nat.one_mul]
  omega

theorem sliceOf_mono {lo span maxRecords ts ts' : Nat} (le : ts ≤ ts') :
    sliceOf lo span maxRecords ts ≤ sliceOf lo span maxRecords ts' :=
  Nat.div_le_div_right (Nat.mul_le_mul_right _ (Nat.sub_le_sub_right le lo))

theorem sliceOf_lt {lo span maxRecords ts : Nat} (inside : ts - lo < span) (limit : 0 < maxRecords) :
    sliceOf lo span maxRecords ts < maxRecords := by
  rw [sliceOf, Nat.div_lt_iff_lt_mul (by omega), Nat.mul_comm maxRecords]
  exact Nat.mul_lt_mul_of_pos_right inside limit

section Thin
variable {n : Nat} {merged : List Pick} {front back : Pick}

theorem ends_bound (sorted : merged.Pairwise fun p q => p.ts ≤ q.ts) (first : merged.head? = some front)
    (last : merged.getLast? = some back) : ∀ p ∈ merged, front.ts ≤ p.ts ∧ p.ts ≤ back.ts := by
  intro p member
  constructor
  · obtain ⟨rest, rfl⟩ := List.head?_eq_some_iff.mp first
    rcases List.mem_cons.mp member with rfl | later
    · exact le_rfl
    · exact (List.pairwise_cons.mp sorted).1 p later
  · obtain ⟨before, rfl⟩ := List.getLast?_eq_some_iff.mp last
    rcases List.mem_append.mp member with early | final
    · exact (List.pairwise_append.mp sorted).2.2 p early back (List.mem_singleton.mpr rfl)
    · rw [List.mem_singleton.mp final]

theorem thin_length_le (limit : 0 < n) (sorted : merged.Pairwise fun p q => p.ts ≤ q.ts)
    (below : ∀ p ∈ merged, p.ts < 2 ^ 64 - 1) : (thin n merged).length ≤ n := by
  by_cases more : merged.length > n
  · have some : merged ≠ [] := by
      rintro rfl
      simp at more
    obtain ⟨front, back, first, last⟩ := exists_ends some
    have small := below back (List.mem_of_getLast? last)
    rw [thin_of_gt more first last]
    refine lastOfRuns_length_le (sorted.imp sliceOf_mono) fun p member => ?_
    have bounds := ends_bound sorted first last p member
    exact sliceOf_lt (by omega) limit
  · rw [thin_of_le (Nat.not_lt.mp more)]
    exact Nat.not_lt.mp more

theorem thin_slices (more : merged.length > n) (limit : 0 < n)
    (sorted : merged.Pairwise fun p q => p.ts ≤ q.ts) (first : merged.head? = some front)
    (last : merged.getLast? = some back) (below : back.ts < 2 ^ 64 - 1) :
    let span := back.ts - front.ts + 1
    (∀ p ∈ thin n merged, ∃ k < n, InSlice front.ts span n k p.ts) ∧
    ∀ k, (∃ p ∈ merged, InSlice front.ts span n k p.ts) →
      ∃ p ∈ merged, (thin n merged).filter (fun q => InSlice front.ts span n k q.ts) = [p] ∧
        ∀ q ∈ merged, InSlice front.ts span n k q.ts → q.ts ≤ p.ts := by
  intro span
  have exact_span : (back.ts - front.ts + 1) % 2 ^ 64 = span := Nat.mod_eq_of_lt (by omega)
  have thinned := thin_of_gt more first last
  rw [exact_span] at thinned
  have slices (k : Nat) (l : List Pick) : l.filter (fun q => InSlice front.ts span n k q.ts) =
      l.filter fun q => sliceOf front.ts span n q.ts = k := by
    apply List.filter_congr
    intro q _
    rw [decide_eq_decide, sliceOf_eq_iff (Nat.succ_pos _)]
  constructor
  · intro p member
    have bounds := ends_bound sorted first last p ((thin_sublist n merged).subset member)
    have inside : p.ts - front.ts < span := by omega
    exact ⟨_, sliceOf_lt inside limit, (sliceOf_eq_iff (Nat.succ_pos _)).mp rfl⟩
  · rintro k ⟨p, member, inside⟩
    have found : p ∈ merged.filter fun q => InSlice front.ts span n k q.ts :=
      List.mem_filter.mpr ⟨member, by simpa using inside⟩
    obtain ⟨newest, ends⟩ := Option.ne_none_iff_exists'.mp
      (mt List.getLast?_eq_none_iff.mp (List.ne_nil_of_mem found))
    have kept := List.mem_of_getLast? ends
    refine ⟨newest, (List.mem_filter.mp kept).1, ?_, fun q other same => ?_⟩
    · rw [thinned, slices, lastOfRuns_filter (sorted.imp sliceOf_mono), ← slices, ends]
      rfl
    · have inFilter : q ∈ merged.filter fun q => InSlice front.ts span n k q.ts :=
        List.mem_filter.mpr ⟨other, by simpa using same⟩
      obtain ⟨before, split⟩ := List.getLast?_eq_some_iff.mp ends
      have order := sorted.filter fun q => InSlice front.ts span n k q.ts
      rw [split] at inFilter order
      rcases List.mem_append.mp inFilter with early | final
      · exact (List.pairwise_append.mp order).2.2 q early newest (List.mem_singleton.mpr rfl)
      · rw [List.mem_singleton.mp final]

end Thin

/-! ## The picks -/

structure InWindow (m : TierManager) (w : Window) (leaf : Leaf) (i : Nat) (s : Sample) : Prop where
  known : leaf ∈ m.leaves
  live : ∃ r, m.rings leaf = some r ∧ r.Live i s
  inside : w.has s = true

section Picks
variable {m : TierManager} {w : Window}

theorem mem_leaves {leaf : Leaf} : leaf ∈ m.leaves ↔ (∃ c : Coarse, leaf = c.leaf) ∨ leaf = .tier1 ∨
    ∃ ring ∈ m.custom, leaf = .level ring.name := by
  constructor
  · intro member
    simp only [TierManager.leaves, TierManager.finer, List.mem_append, List.mem_cons, List.mem_map,
      List.not_mem_nil, or_false] at member
    rcases member with ((tier1 | ⟨ring, known, named⟩) | tier2) | tier3
    · exact Or.inr (Or.inl tier1)
    · exact Or.inr (Or.inr ⟨ring, known, named.symm⟩)
    · exact Or.inl ⟨.l2, tier2⟩
    · exact Or.inl ⟨.l1, tier3⟩
  · rintro (⟨c, rfl⟩ | fine)
    · exact coarse_mem_leaves c
    · exact finer_subset .l2 (mem_finer_l2.mpr fine)

theorem inWindow_of_spread {leaf : Leaf} {override : Option Level} {p : Pick}
    (known : leaf ∈ m.leaves) (member : p ∈ m.spread w leaf override) :
    ∃ s, InWindow m w p.leaf p.idx s ∧ p.ts = s.ts ∧ w.has p.sample = true := by
  obtain ⟨rfl, r, t, file, live, inside, passed⟩ := live_of_spread member
  have same : p.sample.ts = t.ts := by
    rw [passed]
    cases override <;> rfl
  exact ⟨t, ⟨known, ⟨r, file, live⟩, inside⟩, same, by simpa [Window.has, Window.past, same] using inside⟩

theorem inWindow_of_picks (ordered : RingsOrdered m) {p : Pick} (member : p ∈ m.picks w) :
    ∃ s, InWindow m w p.leaf p.idx s ∧ p.ts = s.ts ∧ w.has p.sample = true := by
  rcases mem_picks.mp member with fine | ⟨c, coarse⟩
  · obtain ⟨leaf, override, named, shared⟩ := mem_fine.mp fine
    refine inWindow_of_spread (mem_leaves.mpr (Or.inr ?_)) shared
    rcases named with ⟨tier1, -⟩ | ⟨ring, known, same, -⟩
    · exact Or.inl tier1
    · exact Or.inr ⟨ring, known, same⟩
  · exact inWindow_of_spread (coarse_mem_leaves c) ((mem_uncovered ordered).mp coarse).1

theorem newest_mem_picks (ordered : RingsOrdered m) (limit : 0 < w.maxRecords)
    (sized : ∀ leaf ∈ m.leaves, ∀ r, m.rings leaf = some r → r.capacity ≤ TierManager.maxCapacity)
    (decodable : ∀ leaf ∈ m.leaves, ∀ r, m.rings leaf = some r → ∀ i, r.oldest ≤ i → i < r.widx →
      (r.sampleAt i).isSome)
    (direct : ∀ leaf i s, InWindow m w leaf i s → s.folded = false) {leaf : Leaf} {j : Nat} {u : Sample}
    (record : InWindow m w leaf j u) : ∃ p ∈ m.picks w, u.ts ≤ p.ts := by
  obtain ⟨known, ⟨r, file, live⟩, inside⟩ := record
  have small : r.capacity ≤ 2 ^ 32 := (sized leaf known r file).trans (by decide)
  have newest (override : Option Level) : ∃ i t, (⟨leaf, i, relabel override t⟩ : Pick) ∈ m.spread w leaf override ∧
      InWindow m w leaf i t ∧ u.ts ≤ t.ts := by
    obtain ⟨i, t, member, live', inside', newer⟩ := newest_mem_spread (ordered leaf known r file) small limit
      (decodable leaf known r file) live inside
    exact ⟨i, t, (mem_spread file).mpr ⟨rfl, member⟩, ⟨known, ⟨r, file, live'⟩, inside'⟩, newer⟩
  rcases mem_leaves.mp known with ⟨c, rfl⟩ | rfl | ⟨ring, custom, rfl⟩
  · obtain ⟨i, t, member, record, newer⟩ := newest none
    refine ⟨_, mem_picks.mpr (Or.inr ⟨c, (mem_uncovered ordered).mpr ⟨member, ?_⟩⟩), newer⟩
    rintro ⟨-, folded, -⟩
    have plain := direct _ _ _ record
    rw [relabel, plain] at folded
    cases folded
  · obtain ⟨i, t, member, -, newer⟩ := newest none
    exact ⟨_, mem_picks.mpr (Or.inl (mem_fine.mpr ⟨_, _, Or.inl ⟨rfl, rfl⟩, member⟩)), newer⟩
  · obtain ⟨i, t, member, -, newer⟩ := newest (some ring.levelId)
    exact ⟨_, mem_picks.mpr (Or.inl (mem_fine.mpr ⟨_, _, Or.inr ⟨ring, custom, rfl, rfl⟩, member⟩)), newer⟩

end Picks

/-! ## The result -/

/-- Any rings in time order, of a size that the configuration lets through and with every live record
decodable. -/
theorem queryAll_result (std : TimeSort) (m : TierManager) (ready : m.ready = true) (w : Window)
    (limit : 0 < w.maxRecords) (ordered : RingsOrdered m)
    (sized : ∀ leaf ∈ m.leaves, ∀ r, m.rings leaf = some r → r.capacity ≤ TierManager.maxCapacity)
    (decodable : ∀ leaf ∈ m.leaves, ∀ r, m.rings leaf = some r → ∀ i, r.oldest ≤ i → i < r.widx →
      (r.sampleAt i).isSome)
    (below : ∀ leaf i s, InWindow m w leaf i s → s.ts < 2 ^ 64 - 1) :
    ∃ out, m.queryAll std w = some out ∧ out.length ≤ w.maxRecords ∧
      (∀ p ∈ out, w.has p.sample = true) ∧ out.Pairwise (fun p q => p.ts ≤ q.ts) ∧
      ((m.picks w).length > w.maxRecords → ∀ front back, (std.sort (m.picks w)).head? = some front →
        (std.sort (m.picks w)).getLast? = some back →
        (∀ p ∈ out, ∃ k < w.maxRecords,
          InSlice front.ts (back.ts - front.ts + 1) w.maxRecords k p.ts) ∧
        ∀ k, (∃ p ∈ m.picks w, InSlice front.ts (back.ts - front.ts + 1) w.maxRecords k p.ts) →
          ∃ p ∈ m.picks w,
            out.filter (fun q => InSlice front.ts (back.ts - front.ts + 1) w.maxRecords k q.ts) = [p] ∧
            ∀ q ∈ m.picks w, InSlice front.ts (back.ts - front.ts + 1) w.maxRecords k q.ts → q.ts ≤ p.ts) ∧
      (∀ q ∈ m.picks w, ∃ p ∈ m.picks w, out.getLast? = some p ∧ q.ts ≤ p.ts) ∧
      ((∀ leaf i s, InWindow m w leaf i s → s.folded = false) → ∀ leaf j u, InWindow m w leaf j u →
        ∃ p s, out.getLast? = some p ∧ InWindow m w p.leaf p.idx s ∧ p.ts = s.ts ∧ u.ts ≤ s.ts) := by
  have sorted := std.sorted (m.picks w)
  have perm := std.perm (m.picks w)
  have small : ∀ p ∈ std.sort (m.picks w), p.ts < 2 ^ 64 - 1 := by
    intro p member
    obtain ⟨s, record, same, -⟩ := inWindow_of_picks ordered (perm.mem_iff.mp member)
    rw [same]
    exact below _ _ _ record
  have last : ∀ q ∈ m.picks w, ∃ p ∈ m.picks w,
      (thin w.maxRecords (std.sort (m.picks w))).getLast? = some p ∧ q.ts ≤ p.ts := by
    intro q member
    have inside := perm.mem_iff.mpr member
    obtain ⟨front, back, first, ends⟩ := exists_ends (List.ne_nil_of_mem inside)
    refine ⟨back, perm.mem_iff.mp (List.mem_of_getLast? ends), ?_, (ends_bound sorted first ends q inside).2⟩
    rw [thin_getLast?, ends]
  refine ⟨thin w.maxRecords (std.sort (m.picks w)), ?_, thin_length_le limit sorted small, ?_,
    sorted.sublist (thin_sublist _ _), ?_, last, ?_⟩
  · simp [TierManager.queryAll, ready, Nat.ne_of_gt limit]
  · intro p member
    obtain ⟨s, -, -, inside⟩ := inWindow_of_picks ordered
      (perm.mem_iff.mp ((thin_sublist _ _).subset member))
    exact inside
  · intro more front back first ends
    rw [← perm.length_eq] at more
    obtain ⟨within, newest⟩ := thin_slices more limit sorted first ends
      (small back (List.mem_of_getLast? ends))
    refine ⟨within, ?_⟩
    rintro k ⟨p, member, inside⟩
    obtain ⟨q, kept, alone, largest⟩ := newest k ⟨p, perm.mem_iff.mpr member, inside⟩
    exact ⟨q, perm.mem_iff.mp kept, alone, fun p' member' => largest p' (perm.mem_iff.mpr member')⟩
  · intro direct leaf j u record
    obtain ⟨q, picked, newer⟩ := newest_mem_picks ordered limit sized decodable direct record
    obtain ⟨p, returned, ends, latest⟩ := last q picked
    obtain ⟨s, own, same, -⟩ := inWindow_of_picks ordered returned
    exact ⟨p, s, ends, own, same, (newer.trans latest).trans same.le⟩

theorem queryAll_result_thinned :
    ∃ out, (managerOf ((RingFile.create 1 2 (by decide)).appendAll [l3Record 1, l3Record 2, l3Record 3])).queryAll
        .stable ⟨0, 2, 1⟩ = some out ∧ out.length ≤ 1 ∧ ∃ p, out.getLast? = some p ∧ 2 ≤ p.ts := by
  obtain ⟨-, -, capacity, index, held⟩ :=
    appendAll_holding 2 (by decide) [l3Record 1, l3Record 2, l3Record 3]
  set r := (RingFile.create 1 2 (by decide)).appendAll [l3Record 1, l3Record 2, l3Record 3]
  have oldest : r.oldest = 1 := by
    rw [RingFile.oldest, RingFile.count, index, capacity]
    rfl
  have reads (i : Nat) (low : r.oldest ≤ i) (high : i < r.widx) :
      r.sampleAt i = some (([l3Record 1, l3Record 2, l3Record 3].map FittingRecord.sample).getD i 0) :=
    held.holds i (by rw [oldest] at low; exact low) (by rwa [index] at high)
  have lives {i : Nat} {s : Sample} (live : r.Live i s) :
      s = (l3Record 2).sample ∨ s = (l3Record 3).sample := by
    obtain ⟨low, high, read⟩ := live
    rw [reads i low high] at read
    rw [oldest] at low
    rw [index] at high
    have place : i = 1 ∨ i = 2 := by
      simp only [List.length_cons, List.length_nil] at high
      omega
    rcases place with rfl | rfl
    · exact Or.inl (Option.some.inj read).symm
    · exact Or.inr (Option.some.inj read).symm
  have inRing {leaf : Leaf} {i : Nat} {s : Sample} (record : InWindow (managerOf r) ⟨0, 2, 1⟩ leaf i s) :
      s = (l3Record 2).sample ∨ s = (l3Record 3).sample := by
    obtain ⟨r', file, live⟩ := record.live
    cases file
    exact lives live
  have ordered : r.TimeOrdered := held.timeOrdered index fun i j low less high => by
    obtain ⟨rfl, rfl⟩ : i = 1 ∧ j = 2 := by
      simp only [List.length_cons, List.length_nil] at low high
      omega
    decide
  have second : InWindow (managerOf r) ⟨0, 2, 1⟩ .tier1 1 (l3Record 2).sample :=
    ⟨by simp [TierManager.leaves, TierManager.finer], ⟨r, rfl, by rw [oldest], by rw [index]; decide,
      reads 1 (by rw [oldest]) (by rw [index]; decide)⟩, by decide⟩
  obtain ⟨out, answered, few, -, -, -, -, newest⟩ := queryAll_result .stable (managerOf r) rfl ⟨0, 2, 1⟩
    (by decide) (fun _ _ _ file => by cases file; exact ordered)
    (fun _ _ _ file => by cases file; rw [capacity]; decide)
    (fun _ _ _ file i low high => by cases file; rw [reads i low high]; rfl)
    (fun leaf i s record => by rcases inRing record with rfl | rfl <;> decide)
  obtain ⟨p, s, last, -, same, newer⟩ := newest
    (fun leaf i s record => by rcases inRing record with rfl | rfl <;> rfl) .tier1 1 _ second
  exact ⟨out, answered, few, p, last, by rw [same]; exact newer⟩

end Budyk.Proof
