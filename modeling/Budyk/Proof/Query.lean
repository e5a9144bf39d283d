import Budyk.Proof.Holding
import Budyk.Proof.Reader
import Budyk.Storage.TierManager
import Mathlib.Data.List.DropRight

/-! The window query on a ring at rest. -/

namespace Budyk.Proof
open Lib Storage

def pick (w : Window) : (room olderRun : Nat) → List (Nat × Sample) → List (Nat × Sample)
  | 0, _, _ => []
  | _ + 1, _, [] => []
  | room + 1, olderRun, (i, s) :: rest =>
      if s.ts < w.sinceNs then
        if olderRun + 1 > kDisorderLookback then [] else pick w (room + 1) (olderRun + 1) rest
      else if w.past s then pick w (room + 1) 0 rest
      else (i, s) :: pick w room 0 rest

def below (r : RingFile) (left k : Nat) : List (Nat × Sample) :=
  (List.range' k left).filterMap fun k =>
    (r.sampleAt (r.widx - 1 - k)).map (Prod.mk (r.widx - 1 - k))

theorem pick_no_room (w : Window) (olderRun : Nat) (samples : List (Nat × Sample)) :
    pick w 0 olderRun samples = [] := by
  cases samples <;> rfl

theorem below_succ_none {r : RingFile} {left k : Nat} (read : r.sampleAt (r.widx - 1 - k) = none) :
    below r (left + 1) k = below r left (k + 1) := by
  rw [below, List.range'_succ, List.filterMap_cons, read]
  rfl

theorem below_succ_some {r : RingFile} {left k : Nat} {s : Sample}
    (read : r.sampleAt (r.widx - 1 - k) = some s) :
    below r (left + 1) k = (r.widx - 1 - k, s) :: below r left (k + 1) := by
  rw [below, List.range'_succ, List.filterMap_cons, read]
  rfl

theorem run_walk {r : RingFile} (quiet : r.Quiescent) (w : Window) (left k olderRun : Nat)
    (kept : List (Nat × Sample)) (live : k + left ≤ r.count) :
    (walk w r.capacity r.widx left k olderRun kept).run r.answer =
      kept ++ pick w (w.maxRecords - kept.length) olderRun (below r left k) := by
  induction left generalizing k olderRun kept with
  | zero =>
      rw [walk, Observer.run_pure]
      cases w.maxRecords - kept.length <;> simp [below, pick]
  | succ left ih =>
      rw [walk]
      by_cases room : kept.length < w.maxRecords
      · obtain ⟨n, size⟩ : ∃ n, w.maxRecords - kept.length = n + 1 :=
          ⟨w.maxRecords - kept.length - 1, by omega⟩
        have bound := r.count_le_widx
        have capacity := r.count_le_capacity
        -- At rest no write of a live slot has begun.
        have unbegun : ¬r.begun > r.widx - 1 - k + r.capacity := by
          rw [quiet.begun_eq]
          omega
        have read : r.answer (.readAt (.walk (r.widx - 1 - k)) ((r.widx - 1 - k) % r.capacity)) =
            some (r.slots ((r.widx - 1 - k) % r.capacity)) := r.readAt_mod _
        rw [if_pos room, Observer.run_bind, readAt, Observer.run_query, read]
        simp only
        rw [Observer.run_bind]
        change Observer.run r.answer (if r.begun > r.widx - 1 - k + r.capacity then _ else _) = _
        rw [if_neg unbegun]
        cases decoded : decodeRecord (r.slots ((r.widx - 1 - k) % r.capacity)) with
        | none =>
            rw [below_succ_none decoded]
            exact ih (k + 1) olderRun kept (by omega)
        | some s =>
            rw [below_succ_some decoded, size, pick]
            simp only
            by_cases older : s.ts < w.sinceNs
            · rw [if_pos older, if_pos older]
              by_cases stop : olderRun + 1 > kDisorderLookback
              · simp only [if_pos stop, Observer.run_pure, List.append_nil]
              · rw [if_neg stop, if_neg stop, ← size]
                exact ih (k + 1) (olderRun + 1) kept (by omega)
            · rw [if_neg older, if_neg older]
              by_cases past : w.past s
              · rw [if_pos past, if_pos past, ← size]
                exact ih (k + 1) 0 kept (by omega)
              · rw [if_neg past, if_neg past, ih (k + 1) 0 _ (by omega), List.append_assoc,
                  List.length_append, ← Nat.sub_sub, size]
                rfl
      · rw [if_neg room, Observer.run_pure, Nat.sub_eq_zero_of_le (by omega), pick_no_room,
          List.append_nil]

/-! ## What the walk keeps -/

/-- No record of the window is older than a run of records long enough to end the walk. -/
def NoRunAbove (w : Window) (live : List Sample) : Prop :=
  ∀ older run newer, live = older ++ run ++ newer → kDisorderLookback < run.length →
    (∀ s ∈ run, s.ts < w.sinceNs) → ∀ s ∈ older, w.has s = false

theorem has_of_older {w : Window} {s : Sample} (older : s.ts < w.sinceNs) : w.has s = false := by
  simp [Window.has, Nat.not_le.mpr older]

theorem noRunAbove_of_sorted {w : Window} {live : List Sample}
    (sorted : live.Pairwise fun s t => s.ts ≤ t.ts) : NoRunAbove w live := by
  rintro older run newer rfl long before s member
  obtain ⟨t, first⟩ := List.exists_mem_of_length_pos (Nat.zero_lt_of_lt long)
  have le : s.ts ≤ t.ts := (List.pairwise_append.mp (List.pairwise_append.mp sorted).1).2.2 s member t first
  exact has_of_older (le.trans_lt (before t first))

/-- The walk ends early only where nothing of the window is left. `olderRun` records older than
the window come right before `samples`. -/
theorem pick_eq_take (w : Window) (room olderRun : Nat) (samples : List (Nat × Sample))
    (ends : ∀ run rest, samples = run ++ rest → kDisorderLookback < olderRun + run.length →
      (∀ s ∈ run, s.2.ts < w.sinceNs) → ∀ s ∈ rest, w.has s.2 = false)
    (inner : ∀ newer run rest, samples = newer ++ run ++ rest → kDisorderLookback < run.length →
      (∀ s ∈ run, s.2.ts < w.sinceNs) → ∀ s ∈ rest, w.has s.2 = false) :
    pick w room olderRun samples = (samples.filter fun s => w.has s.2).take room := by
  induction samples generalizing room olderRun with
  | nil => cases room <;> rfl
  | cons head rest ih =>
      obtain ⟨i, s⟩ := head
      cases room with
      | zero => rw [pick_no_room, List.take_zero]
      | succ room =>
          have inner' : ∀ newer run rest', rest = newer ++ run ++ rest' → kDisorderLookback < run.length →
              (∀ s ∈ run, s.2.ts < w.sinceNs) → ∀ s ∈ rest', w.has s.2 = false :=
            fun newer run rest' split => inner ((i, s) :: newer) run rest' (by rw [split]; rfl)
          rw [pick]
          by_cases older : s.ts < w.sinceNs
          · rw [if_pos older, List.filter_cons_of_neg (by simp [has_of_older older])]
            by_cases stop : olderRun + 1 > kDisorderLookback
            · have none := ends [(i, s)] rest rfl stop (by simpa using older)
              rw [if_pos stop, List.filter_eq_nil_iff.mpr (by simpa using none), List.take_nil]
            · rw [if_neg stop]
              apply ih _ _ _ inner'
              intro run rest' split long before
              refine ends ((i, s) :: run) rest' (by rw [split]; rfl) ?_ ?_
              · rw [List.length_cons]; omega
              · exact List.forall_mem_cons.mpr ⟨older, before⟩
          · rw [if_neg older]
            have ends' : ∀ run rest', rest = run ++ rest' → kDisorderLookback < 0 + run.length →
                (∀ s ∈ run, s.2.ts < w.sinceNs) → ∀ s ∈ rest', w.has s.2 = false :=
              fun run rest' split long =>
                inner [(i, s)] run rest' (by rw [split]; rfl) (by omega)
            by_cases past : w.past s
            · rw [if_pos past, ih _ _ ends' inner', List.filter_cons_of_neg (by simp [Window.has, past])]
            · have has : w.has s = true := by simpa [Window.has, past] using older
              rw [if_neg past, ih _ _ ends' inner', List.filter_cons_of_pos (by exact has), List.take_succ_cons]

/-! ## Against the live records -/

theorem below_eq (r : RingFile) {start : Nat} (low : r.oldest ≤ start) (high : start ≤ r.widx) :
    (below r (start - r.oldest) (r.widx - start)).map Prod.snd =
      ((List.range' r.oldest (start - r.oldest)).filterMap r.sampleAt).reverse := by
  have indices : (List.range' (r.widx - start) (start - r.oldest)).map (fun k => r.widx - 1 - k) =
      (List.range' r.oldest (start - r.oldest)).reverse := by
    apply List.ext_getElem
    · simp
    · intro i h₁ h₂
      simp only [List.length_map, List.length_range'] at h₁
      simp only [List.getElem_map, List.getElem_range', List.getElem_reverse, List.length_range']
      omega
  rw [← List.filterMap_reverse, ← indices, List.filterMap_map, below, List.map_filterMap]
  apply List.filterMap_congr
  intro k _
  simp [Function.comp_def]

theorem run_walk_newest {r : RingFile} (quiet : r.Quiescent) (w : Window) {start : Nat}
    (low : r.oldest ≤ start) (high : start ≤ r.widx)
    (reach : NoRunAbove w ((List.range' r.oldest (start - r.oldest)).filterMap r.sampleAt)) :
    (((walk w r.capacity r.widx (r.count - (r.widx - start)) (r.widx - start) 0 []).run
        r.answer).reverse.map Prod.snd) =
      (((List.range' r.oldest (start - r.oldest)).filterMap r.sampleAt).filter w.has).rtake
        w.maxRecords := by
  have total := r.oldest_add_count
  have size : r.count - (r.widx - start) = start - r.oldest := by omega
  set live := (List.range' r.oldest (start - r.oldest)).filterMap r.sampleAt with hlive
  have samples := below_eq r low high
  rw [← hlive] at samples
  set met := below r (start - r.oldest) (r.widx - start)
  have inner : ∀ newer run rest, met = newer ++ run ++ rest → kDisorderLookback < run.length →
      (∀ s ∈ run, s.2.ts < w.sinceNs) → ∀ s ∈ rest, w.has s.2 = false := by
    intro newer run rest split long before s member
    have reversed : live = (rest.map Prod.snd).reverse ++ (run.map Prod.snd).reverse ++
        (newer.map Prod.snd).reverse := by
      rw [← List.reverse_reverse live, ← samples, split]
      simp [List.append_assoc]
    refine reach _ _ _ reversed (by simpa using long) ?_ s.2
      (List.mem_reverse.mpr (List.mem_map_of_mem member))
    intro t inRun
    obtain ⟨u, inside, rfl⟩ := List.mem_map.mp (List.mem_reverse.mp inRun)
    exact before u inside
  have ends : ∀ run rest, met = run ++ rest → kDisorderLookback < 0 + run.length →
      (∀ s ∈ run, s.2.ts < w.sinceNs) → ∀ s ∈ rest, w.has s.2 = false :=
    fun run rest split long => inner [] run rest split (by omega)
  have filtered : (met.filter fun s => w.has s.2).map Prod.snd = (live.filter w.has).reverse := by
    rw [← List.filter_reverse, ← samples, List.filter_map]
    rfl
  rw [size, run_walk quiet w _ _ 0 [] (by omega), List.nil_append, List.length_nil, Nat.sub_zero,
    pick_eq_take w _ 0 _ ends inner, List.map_reverse, List.map_take, filtered, List.take_reverse,
    List.reverse_reverse]
  rfl

/-! ## The query -/

theorem sorted_of_timeOrdered {r : RingFile} (ordered : r.TimeOrdered) {lo n : Nat} (low : r.oldest ≤ lo)
    (high : lo + n ≤ r.widx) :
    ((List.range' lo n).filterMap r.sampleAt).Pairwise fun s t => s.ts ≤ t.ts := by
  rw [List.pairwise_filterMap]
  refine List.Pairwise.imp_of_mem ?_ List.pairwise_lt_range'
  intro i j inI inJ less s readI t readJ
  have boundI := List.mem_range'_1.mp inI
  have boundJ := List.mem_range'_1.mp inJ
  exact ordered i j s t ⟨by omega, by omega, readI⟩ ⟨by omega, by omega, readJ⟩ less

theorem liveSamples_split (r : RingFile) {start : Nat} (low : r.oldest ≤ start) (high : start ≤ r.widx) :
    r.liveSamples = (List.range' r.oldest (start - r.oldest)).filterMap r.sampleAt ++
      (List.range' start (r.widx - start)).filterMap r.sampleAt := by
  have total := r.oldest_add_count
  rw [RingFile.liveSamples, ← List.filterMap_append,
    show r.count = (start - r.oldest) + (r.widx - start) by omega, ← List.range'_append_1,
    Nat.add_sub_cancel' low]

def Unbounded (w : Window) : Prop := w.untilNs = 0 ∨ w.untilNs = UINT64_MAX

/-- The reference: the newest `max_records` of the live records of the window, oldest first. -/
def newestInWindow (r : RingFile) (w : Window) : List Sample :=
  (r.liveSamples.filter w.has).rtake w.maxRecords

theorem walkStart_spec {r : RingFile} (w : Window)
    (searchable : Unbounded w ∨ r.TimeOrdered) :
    let start := (walkStart w r.capacity r.widx).run r.answer
    r.oldest ≤ start ∧ start ≤ r.widx ∧ (Unbounded w → start = r.widx) ∧
      ∀ i s, r.Live i s → start ≤ i → w.has s = false := by
  have total := r.oldest_add_count
  by_cases bounded : w.untilNs ≠ 0 ∧ w.untilNs ≠ UINT64_MAX
  · have ordered : r.TimeOrdered := by
      rcases searchable with unbounded | ordered
      · rcases unbounded with zero | max
        · exact absurd zero bounded.1
        · exact absurd max bounded.2
      · exact ordered
    obtain ⟨low, high, split⟩ := lowerBound_spec ordered (w.untilNs + 1)
    have start : (walkStart w r.capacity r.widx).run r.answer =
        ((readerOf r).lowerBound (w.untilNs + 1)).run r.answer := by
      rw [walkStart, if_pos bounded, Observer.run_bind, run_make, Observer.run_bind, Observer.run_pure,
        ← count_eq_ite, Nat.min_eq_left high, ← RingFile.oldest, Nat.max_eq_left low]
    rw [start]
    refine ⟨low, high, ?_, ?_⟩
    · rintro (zero | max)
      · exact absurd zero bounded.1
      · exact absurd max bounded.2
    · intro i s live after
      have past : w.past s := ⟨bounded.1, (split i s live).mpr after⟩
      simp [Window.has, past]
  · have start : (walkStart w r.capacity r.widx).run r.answer = r.widx := by
      rw [walkStart, if_neg bounded, Observer.run_pure]
    rw [start]
    exact ⟨by omega, le_rfl, fun _ => rfl, fun i s live after => absurd live.2.1 (by omega)⟩

theorem run_queryRingAt {r : RingFile} (quiet : r.Quiescent) (w : Window)
    (searchable : r.TimeOrdered ∨ Unbounded w ∧ NoRunAbove w r.liveSamples) :
    ((queryRingAt r.capacity w).run r.answer).map Prod.snd = newestInWindow r w := by
  have total := r.oldest_add_count
  have pos := r.capacity_pos
  have index : writeIndex.run r.answer = r.widx := rfl
  rw [queryRingAt, Observer.run_bind, index, queryRingFrom]
  by_cases blank : r.capacity = 0 ∨ r.widx = 0
  · have none : r.count = 0 := by omega
    rw [if_pos blank, newestInWindow, RingFile.liveSamples, none]
    simp
  rw [if_neg blank]
  by_cases crossed : w.untilNs ≠ 0 ∧ w.sinceNs > w.untilNs
  · have none : r.liveSamples.filter w.has = [] := by
      rw [List.filter_eq_nil_iff]
      intro s _
      by_cases older : s.ts < w.sinceNs
      · simp [has_of_older older]
      · have past : w.past s := ⟨crossed.1, by omega⟩
        simp [Window.has, past]
    rw [if_pos crossed, newestInWindow, none]
    simp
  rw [if_neg crossed, Observer.run_bind, Observer.run_bind, Observer.run_pure, ← count_eq_ite]
  obtain ⟨low, high, whole, rest⟩ :=
    walkStart_spec w (r := r) (searchable.symm.imp_left And.left)
  set start := (walkStart w r.capacity r.widx).run r.answer
  have after : ((List.range' start (r.widx - start)).filterMap r.sampleAt).filter w.has = [] := by
    rw [List.filter_eq_nil_iff]
    intro s member
    obtain ⟨i, inside, read⟩ := List.mem_filterMap.mp member
    have bounds := List.mem_range'_1.mp inside
    simp [rest i s ⟨by omega, by omega, read⟩ bounds.1]
  rw [run_walk_newest quiet w low high, newestInWindow, liveSamples_split r low high,
    List.filter_append, after, List.append_nil]
  rcases searchable with ordered | ⟨unbounded, reach⟩
  · exact noRunAbove_of_sorted (sorted_of_timeOrdered ordered le_rfl (by omega))
  · have all : start - r.oldest = r.count := by rw [whole unbounded]; omega
    rw [all]
    exact reach

/-- Both queries answer with the newest `max_records` of the window. A ring in time order is
searched for the window's end; one in any order is walked whole, where no run of older records
stands above a record of the window. -/
theorem query_eq_newestInWindow (m : TierManager) (ready : m.ready = true) (w : Window)
    (limit : 0 < w.maxRecords) (leaf : Leaf) (r : RingFile) (file : m.rings leaf = some r)
    (quiet : r.Quiescent)
    (searchable : r.TimeOrdered ∨ Unbounded w ∧ NoRunAbove w r.liveSamples) :
    (∀ tier, TierManager.tierLeaf tier = some leaf → m.query tier w = some (newestInWindow r w)) ∧
    (∀ level, TierManager.ringFor m.custom level = some leaf → m.queryLevel level w =
      some ((newestInWindow r w).map (relabel (TierManager.overrideLevel level)))) := by
  have usable : (!m.ready || w.maxRecords == 0) = false := by
    simp [ready, Nat.ne_of_gt limit]
  have answered (override : Option Level) : m.queryLeaf (some leaf) override w =
      some ((newestInWindow r w).map (relabel override)) := by
    rw [← run_queryRingAt quiet w searchable, List.map_map]
    simp only [TierManager.queryLeaf, usable, Bool.false_eq_true, if_false]
    simp only [Option.bind_eq_bind, Option.bind_some, file, queryRing, Observer.run_bind,
      Observer.run_pure]
    rfl
  constructor
  · intro tier found
    rw [TierManager.query, found, answered]
    congr 1
    exact List.map_id _
  · intro level found
    rw [TierManager.queryLevel, found, answered]

def managerOf (r : RingFile) : TierManager :=
  { TierManager.fresh 0 0 with ready := true, rings := fun _ => some r }

theorem query_eq_newestInWindow_wrapped :
    (managerOf ((RingFile.create 1 2 (by decide)).appendAll
      [l3Record 1, l3Record 2, l3Record 3])).query 1 ⟨0, 2, 5⟩ = some [(l3Record 2).sample] := by
  obtain ⟨quiet, -, -, index, held⟩ :=
    appendAll_holding 2 (by decide) [l3Record 1, l3Record 2, l3Record 3]
  set r := (RingFile.create 1 2 (by decide)).appendAll [l3Record 1, l3Record 2, l3Record 3]
  have ordered : r.TimeOrdered := held.timeOrdered index fun i j low less high => by
    obtain ⟨rfl, rfl⟩ : i = 1 ∧ j = 2 := by
      simp only [List.length_cons, List.length_nil] at low high
      omega
    decide
  have live : newestInWindow r ⟨0, 2, 5⟩ = [(l3Record 2).sample] := by
    rw [newestInWindow, held.liveSamples_eq index]
    rfl
  rw [← live]
  exact (query_eq_newestInWindow (managerOf r) rfl ⟨0, 2, 5⟩ (by decide) .tier1 r rfl quiet
    (Or.inl ordered)).1 1 rfl

end Budyk.Proof
