import Budyk.Proof.Holding
import Budyk.Proof.Reader
import Budyk.Storage.Writer

/-! A window query beside the writer. -/

namespace Budyk.Proof
open Lib Storage Storage.Writer

theorem rest_consistent {r : RingFile} (quiet : r.Quiescent) : (Writer.rest r).Consistent where
  begun_eq := quiet.begun_eq
  holds := fun _ _ _ => rfl
  pending := fun _ idle => by cases idle

theorem step_consistent {s t : Writer} (step : Step s t) (ok : s.Consistent) : t.Consistent := by
  cases step with
  | begin ring log record size =>
      refine ⟨rfl, ?_, ?_⟩
      · intro i low high
        have before : i < ring.widx := high
        change ring.slots (i % ring.capacity) = Function.update log ring.widx record i
        rw [Function.update_of_ne before.ne]
        exact ok.holds i low high
      · rintro record' same
        cases same
        exact Function.update_self ..
  | place ring log record =>
      refine ⟨ok.begun_eq, ?_, fun _ other => by cases other⟩
      have item : Function.update log ring.widx record = log := by
        rw [← ok.pending record rfl, Function.update_eq_self]
      have held : Holds ring.capacity ring.slots log (ring.widx - ring.capacity) ring.widx := ok.holds
      have pos := ring.capacity_pos
      have low : ring.widx - ring.capacity ≤ ring.widx + 1 - ring.capacity := by omega
      have near : ring.widx < ring.widx + 1 - ring.capacity + ring.capacity := by omega
      have placed := held.write low near record
      rw [item] at placed
      exact placed
  | index ring log => exact ⟨ok.begun_eq, ok.holds, fun _ other => by cases other⟩
  | publish ring log => exact ⟨ok.begun_eq, ok.holds, fun _ other => by cases other⟩

structure Later (s t : Writer) : Prop where
  capacity : t.ring.capacity = s.ring.capacity
  widx : s.ring.widx ≤ t.ring.widx
  written : s.written ≤ t.written
  started : s.started ≤ t.started
  log : ∀ i, i < s.started → t.log i = s.log i

theorem step_later {s t : Writer} (step : Step s t) : Later s t := by
  cases step with
  | begin ring log record size =>
      refine ⟨rfl, le_rfl, le_rfl, Nat.le_succ _, fun i before => ?_⟩
      exact Function.update_of_ne (Nat.ne_of_lt before) ..
  | place ring log record => exact ⟨rfl, le_rfl, Nat.le_succ _, le_rfl, fun _ _ => rfl⟩
  | index ring log => exact ⟨rfl, le_rfl, le_rfl, le_rfl, fun _ _ => rfl⟩
  | publish ring log => exact ⟨rfl, Nat.le_succ _, le_rfl, le_rfl, fun _ _ => rfl⟩

theorem steps_consistent {s t : Writer} (steps : Steps s t) (ok : s.Consistent) : t.Consistent := by
  induction steps with
  | refl => exact ok
  | tail _ step ih => exact step_consistent step ih

theorem steps_later {s t : Writer} (steps : Steps s t) : Later s t := by
  induction steps with
  | refl => exact ⟨rfl, le_rfl, le_rfl, le_rfl, fun _ _ => rfl⟩
  | tail _ step ih =>
      have next := step_later step
      exact ⟨next.capacity.trans ih.capacity, ih.widx.trans next.widx, ih.written.trans next.written,
        ih.started.trans next.started,
        fun i before => (next.log i (before.trans_le ih.started)).trans (ih.log i before)⟩

theorem widx_le_written (s : Writer) : s.ring.widx ≤ s.written := by
  unfold Writer.written
  split <;> omega

theorem written_le_started (s : Writer) : s.written ≤ s.started := by
  unfold Writer.written Writer.started
  split <;> omega

theorem sampleAt_of_unwritten {s t : Writer} (ok : s.Consistent) (later : Later s t) {i : Nat}
    (indexed : i < s.ring.widx) (unwritten : s.written ≤ i + s.ring.capacity) :
    s.ring.sampleAt i = t.sampleOf i := by
  have written := widx_le_written s
  have bound := written_le_started s
  rw [RingFile.sampleAt, ok.holds i (by omega) (by omega), sampleOf, later.log i (by omega)]

/-! ## One turn of the walk -/

section Walk
variable {guard : Writer → RingCall → Prop}

abbrev Race (guard : Writer → RingCall → Prop) {α : Type} (p : RingM α) (s : Writer) (a : α)
    (t : Writer) : Prop := Observer.Exec Writer.answer Step guard p s a t

def WalkOn (guard : Writer → RingCall → Prop) (w : Window) (cap widx left k olderRun : Nat)
    (kept : List (Nat × Sample)) (read : Option Sample) (v : Writer) (result : List (Nat × Sample))
    (t : Writer) : Prop :=
  match read with
  | none => Race guard (walk w cap widx left (k + 1) olderRun kept) v result t
  | some a =>
      if a.ts < w.sinceNs then
        if olderRun + 1 > kDisorderLookback then result = kept
        else Race guard (walk w cap widx left (k + 1) (olderRun + 1) kept) v result t
      else if w.past a then Race guard (walk w cap widx left (k + 1) 0 kept) v result t
      else Race guard (walk w cap widx left (k + 1) 0 (kept ++ [(widx - 1 - k, a)])) v result t

theorem race_walk_succ {s t : Writer} {w : Window} {widx left k olderRun : Nat}
    {kept result : List (Nat × Sample)} (room : kept.length < w.maxRecords)
    (race : Race guard (walk w s.ring.capacity widx (left + 1) k olderRun kept) s result t) :
    ∃ u v, Steps s u ∧ Steps u v ∧ Steps v t ∧
      (widx - 1 - k + s.ring.capacity < v.ring.begun ∧ result = kept ∨
        v.ring.begun ≤ widx - 1 - k + s.ring.capacity ∧
          WalkOn guard w s.ring.capacity widx left k olderRun kept (u.ring.sampleAt (widx - 1 - k)) v
            result t) := by
  rw [walk, if_pos room] at race
  obtain ⟨buf, u', reading, race⟩ := Observer.exec_bind race
  obtain ⟨u, before, after, -, rfl⟩ := Observer.exec_query reading
  have cap : u.ring.capacity = s.ring.capacity := (steps_later before).capacity
  have slot : u.answer (.readAt (.walk (widx - 1 - k)) ((widx - 1 - k) % s.ring.capacity)) =
      some (u.ring.slots ((widx - 1 - k) % u.ring.capacity)) := by
    rw [← cap]
    exact u.ring.readAt_mod _
  rw [slot] at race
  obtain ⟨begun, v', checking, race⟩ := Observer.exec_bind race
  obtain ⟨v, before', after', -, rfl⟩ := Observer.exec_query checking
  refine ⟨u, v, before, after.trans before', after'.trans race.moves, ?_⟩
  change Race guard (if v.ring.begun > widx - 1 - k + s.ring.capacity then pure kept else _) v' result t
    at race
  by_cases lapped : v.ring.begun > widx - 1 - k + s.ring.capacity
  · rw [if_pos lapped] at race
    exact Or.inl ⟨lapped, Observer.exec_pure race⟩
  · rw [if_neg lapped] at race
    refine Or.inr ⟨not_lt.mp lapped, ?_⟩
    have read : u.ring.sampleAt (widx - 1 - k) =
        decodeRecord (u.ring.slots ((widx - 1 - k) % u.ring.capacity)) := rfl
    rw [read]
    cases decoded : decodeRecord (u.ring.slots ((widx - 1 - k) % u.ring.capacity)) with
    | none =>
        rw [decoded] at race
        exact Observer.Exec.after after' race
    | some a =>
        rw [decoded] at race
        simp only [WalkOn]
        by_cases older : a.ts < w.sinceNs
        · simp only [if_pos older] at race ⊢
          by_cases stop : olderRun + 1 > kDisorderLookback
          · rw [if_pos stop] at race ⊢
            exact Observer.exec_pure race
          · rw [if_neg stop] at race ⊢
            exact Observer.Exec.after after' race
        · simp only [if_neg older] at race ⊢
          by_cases past : w.past a
          · rw [if_pos past] at race ⊢
            exact Observer.Exec.after after' race
          · rw [if_neg past] at race ⊢
            exact Observer.Exec.after after' race

theorem walkOn_cases {w : Window} {cap widx left k olderRun : Nat} {kept result : List (Nat × Sample)}
    {read : Option Sample} {v t : Writer}
    (on : WalkOn guard w cap widx left k olderRun kept read v result t) :
    result = kept ∨ ∃ olderRun' kept',
      Race guard (walk w cap widx left (k + 1) olderRun' kept') v result t ∧
        (kept' = kept ∨ ∃ a, read = some a ∧ kept' = kept ++ [(widx - 1 - k, a)]) := by
  cases read with
  | none => exact Or.inr ⟨olderRun, kept, on, Or.inl rfl⟩
  | some a =>
      simp only [WalkOn] at on
      split at on
      · split at on
        · exact Or.inl on
        · exact Or.inr ⟨_, kept, on, Or.inl rfl⟩
      · split at on
        · exact Or.inr ⟨0, kept, on, Or.inl rfl⟩
        · exact Or.inr ⟨0, _, on, Or.inr ⟨a, rfl, rfl⟩⟩

theorem race_walk {s t : Writer} (ok : s.Consistent) {w : Window} {widx left k olderRun : Nat}
    {kept result : List (Nat × Sample)} (indexed : widx ≤ s.ring.widx) (inside : k + left ≤ widx)
    (race : Race guard (walk w s.ring.capacity widx left k olderRun kept) s result t) :
    ∃ picked, result = kept ++ picked ∧ (picked.map Prod.fst).Pairwise (· > ·) ∧
      ∀ p ∈ picked, widx - (k + left) ≤ p.1 ∧ p.1 < widx - k ∧ t.sampleOf p.1 = some p.2 := by
  induction left generalizing s k olderRun kept with
  | zero =>
      rw [walk] at race
      exact ⟨[], by simpa using Observer.exec_pure race, by simp, by simp⟩
  | succ left ih =>
      by_cases room : kept.length < w.maxRecords
      · obtain ⟨u, v, before, between, after, lapped | ⟨unbegun, on⟩⟩ := race_walk_succ room race
        · exact ⟨[], by simpa using lapped.2, by simp, by simp⟩
        · have okU := steps_consistent before ok
          have okV := steps_consistent between okU
          have laterU := steps_later before
          have laterV := steps_later between
          have laterT := steps_later (between.trans after)
          have startU := written_le_started u
          rw [okV.begun_eq] at unbegun
          have cap := laterU.capacity
          have cap' := laterV.capacity
          have indexU := laterU.widx
          have indexV := laterV.widx
          have startV := laterV.started
          -- Its slot was not being written over when it was checked, so not when it was read.
          have appended : u.ring.sampleAt (widx - 1 - k) = t.sampleOf (widx - 1 - k) :=
            sampleAt_of_unwritten okU laterT (by omega) (by omega)
          rcases walkOn_cases on with stopped | ⟨olderRun', kept', race', grown⟩
          · exact ⟨[], by simpa using stopped, by simp, by simp⟩
          · rw [← cap, ← cap'] at race'
            obtain ⟨picked, rfl, falling, within⟩ := ih okV (by omega) (by omega) race'
            rcases grown with rfl | ⟨a, read, rfl⟩
            · refine ⟨picked, rfl, falling, fun p member => ?_⟩
              obtain ⟨low, high, same⟩ := within p member
              exact ⟨by omega, by omega, same⟩
            · refine ⟨(widx - 1 - k, a) :: picked, by simp, ?_, ?_⟩
              · refine List.pairwise_cons.mpr ⟨fun i member => ?_, falling⟩
                obtain ⟨p, inside, rfl⟩ := List.mem_map.mp member
                have high := (within p inside).2.1
                change p.1 < widx - 1 - k
                omega
              · refine List.forall_mem_cons.mpr ⟨⟨?_, ?_, ?_⟩, fun p member => ?_⟩
                · change widx - (k + (left + 1)) ≤ widx - 1 - k
                  omega
                · change widx - 1 - k < widx - k
                  omega
                · rw [← appended, read]
                · obtain ⟨low, high, same⟩ := within p member
                  exact ⟨by omega, by omega, same⟩
      · rw [walk, if_neg room] at race
        exact ⟨[], by simpa using Observer.exec_pure race, by simp, by simp⟩

end Walk

/-! ## The query -/

theorem race_walkStart {guard : Writer → RingCall → Prop} {s t : Writer} {w : Window} {cap widx start : Nat}
    (race : Race guard (walkStart w cap widx) s start t) :
    start ≤ widx ∧ widx - (if widx < cap then widx else cap) ≤ start := by
  rw [walkStart] at race
  split at race
  · obtain ⟨reader, u, -, race⟩ := Observer.exec_bind race
    obtain ⟨found, u', -, race⟩ := Observer.exec_bind race
    rw [Observer.exec_pure race]
    omega
  · rw [Observer.exec_pure race]
    omega

theorem race_queryRingFrom {guard : Writer → RingCall → Prop} {s u t : Writer} {w : Window}
    {result : List (Nat × Sample)} (moved : Steps s u)
    (race : Race guard (queryRingFrom s.ring.capacity w s.ring.widx) u result t) :
    result = [] ∧ (s.ring.widx = 0 ∨ w.untilNs ≠ 0 ∧ w.sinceNs > w.untilNs) ∨
      ∃ v start newestFirst, Race guard (walkStart w s.ring.capacity s.ring.widx) s start v ∧
        Race guard (walk w v.ring.capacity s.ring.widx (s.ring.count - (s.ring.widx - start))
          (s.ring.widx - start) 0 []) v newestFirst t ∧ result = newestFirst.reverse := by
  have pos := s.ring.capacity_pos
  rw [queryRingFrom] at race
  by_cases blank : s.ring.capacity = 0 ∨ s.ring.widx = 0
  · rw [if_pos blank] at race
    exact Or.inl ⟨Observer.exec_pure race, Or.inl (by omega)⟩
  rw [if_neg blank] at race
  by_cases crossed : w.untilNs ≠ 0 ∧ w.sinceNs > w.untilNs
  · rw [if_pos crossed] at race
    exact Or.inl ⟨Observer.exec_pure race, Or.inr crossed⟩
  rw [if_neg crossed] at race
  obtain ⟨start, v, search, race⟩ := Observer.exec_bind race
  obtain ⟨newestFirst, v', walking, race⟩ := Observer.exec_bind race
  refine Or.inr ⟨v, start, newestFirst, Observer.Exec.after moved search, ?_, Observer.exec_pure race⟩
  rw [count_eq_ite, (steps_later (moved.trans search.moves)).capacity]
  exact Observer.Exec.before walking race.moves

/-- A query beside the writer never mixes laps: whatever the interleaving, each sample is the record
appended at the index the walk was at, and they come in write order. -/
theorem race_query_laps (r : RingFile) (quiet : r.Quiescent) (w : Window)
    (result : List (Nat × Sample)) (t : Writer)
    (race : Race (fun _ _ => True) (queryRingAt r.capacity w) (Writer.rest r) result t) :
    (∀ p ∈ result, r.oldest ≤ p.1 ∧ p.1 < t.ring.widx ∧ t.sampleOf p.1 = some p.2) ∧
      (result.map Prod.fst).Pairwise (· < ·) := by
  rw [queryRingAt] at race
  obtain ⟨widx, u', asking, race⟩ := Observer.exec_bind race
  obtain ⟨u, before, moved, -, rfl⟩ := Observer.exec_query asking
  have laterU := steps_later before
  have capU : u.ring.capacity = r.capacity := laterU.capacity
  have laterT := steps_later (moved.trans race.moves)
  rw [show u.answer .writeIndex = u.ring.widx from rfl, ← capU] at race
  rcases race_queryRingFrom moved race with none | ⟨v, start, newestFirst, search, walking, rfl⟩
  · rw [none.1]
    simp
  · have okV := steps_consistent (before.trans search.moves) (rest_consistent quiet)
    have laterV := steps_later search.moves
    obtain ⟨high, low⟩ := race_walkStart search
    rw [← count_eq_ite] at low
    have count := u.ring.count_le_widx
    have index := laterV.widx
    have indexT := laterT.widx
    have indexU : r.widx ≤ u.ring.widx := laterU.widx
    obtain ⟨picked, rfl, falling, within⟩ := race_walk okV index (by omega) walking
    refine ⟨fun p member => ?_, ?_⟩
    · obtain ⟨bottom, top, same⟩ := within p (by simpa using member)
      refine ⟨?_, by omega, same⟩
      simp only [RingFile.oldest, RingFile.count, capU] at *
      omega
    · rw [List.map_reverse, List.pairwise_reverse]
      exact falling

/-! ## What the query keeps -/

section Keeps
variable {guard : Writer → RingCall → Prop}

def inWindow (w : Window) (t : Writer) (indices : List Nat) : Nat :=
  (indices.filterMap t.sampleOf).countP w.has

theorem race_walk_keeps {s t : Writer} (ok : s.Consistent) {w : Window} {widx left k olderRun i : Nat}
    {kept result : List (Nat × Sample)} {a : Sample} (indexed : widx ≤ s.ring.widx)
    (inside : k + left ≤ widx) (low : widx - (k + left) ≤ i) (high : i < widx - k)
    (unbegun : t.started ≤ i + s.ring.capacity)
    (newer : ∀ j b, i ≤ j → j < widx → t.sampleOf j = some b → w.sinceNs ≤ b.ts)
    (record : t.sampleOf i = some a) (member : w.has a = true)
    (fits : kept.length + inWindow w t (List.range' i (widx - k - i)) ≤ w.maxRecords)
    (race : Race guard (walk w s.ring.capacity widx left k olderRun kept) s result t) :
    (i, a) ∈ result := by
  induction left generalizing s k olderRun kept with
  | zero => omega
  | succ left ih =>
      have last : List.range' i (widx - k - i) = List.range' i (widx - (k + 1) - i) ++ [widx - 1 - k] := by
        rw [show widx - k - i = (widx - (k + 1) - i) + 1 by omega, List.range'_1_concat,
          show i + (widx - (k + 1) - i) = widx - 1 - k by omega]
      have counted : inWindow w t (List.range' i (widx - k - i)) =
          inWindow w t (List.range' i (widx - (k + 1) - i)) + inWindow w t [widx - 1 - k] := by
        rw [last, inWindow, List.filterMap_append, List.countP_append]
        rfl
      have first : 0 < inWindow w t (List.range' i (widx - k - i)) := by
        rw [inWindow, List.countP_pos_iff]
        exact ⟨a, List.mem_filterMap.mpr ⟨i, List.mem_range'_1.mpr ⟨le_rfl, by omega⟩, record⟩, member⟩
      obtain ⟨u, v, before, between, after, ended⟩ := race_walk_succ (by omega) race
      have okU := steps_consistent before ok
      have okV := steps_consistent between okU
      have laterU := steps_later before
      have laterV := steps_later between
      have laterT := steps_later (between.trans after)
      have startT := (steps_later after).started
      have startU := written_le_started u
      have startV := laterV.started
      have cap := laterU.capacity
      have cap' := laterV.capacity
      have indexU := laterU.widx
      have indexV := laterV.widx
      rw [okV.begun_eq] at ended
      obtain lapped | ⟨-, on⟩ := ended
      · omega
      rw [sampleAt_of_unwritten okU laterT (by omega) (by omega)] at on
      rw [← cap, ← cap'] at on
      -- With `i` still to come, the rest of the walk has what it needs.
      have next {olderRun' : Nat} {kept' : List (Nat × Sample)} (more : i < widx - 1 - k)
          (size : kept'.length ≤ kept.length + inWindow w t [widx - 1 - k])
          (race' : Race guard (walk w v.ring.capacity widx left (k + 1) olderRun' kept') v result t) :
          (i, a) ∈ result :=
        ih okV (by omega) (by omega) (by omega) (by omega) (by omega) (by omega) race'
      cases read : t.sampleOf (widx - 1 - k) with
      | none =>
          rw [read] at on
          have other : widx - 1 - k ≠ i := by
            rintro rfl
            rw [read] at record
            cases record
          exact next (by omega) (Nat.le_add_right _ _) on
      | some b =>
          rw [read] at on
          have since : ¬b.ts < w.sinceNs := not_lt.mpr (newer _ b (by omega) (by omega) read)
          have one : w.has b = true → inWindow w t [widx - 1 - k] = 1 := fun has => by
            simp [inWindow, read, has]
          simp only [WalkOn, if_neg since] at on
          by_cases here : widx - 1 - k = i
          · rw [here, record] at read
            cases read
            have within : ¬w.past a := by
              simp only [Window.has, Bool.and_eq_true, Bool.not_eq_true', decide_eq_false_iff_not] at member
              exact member.2
            rw [if_neg within] at on
            obtain ⟨picked, rfl, -, -⟩ := race_walk okV (by omega) (by omega) on
            simp [here]
          · by_cases past : w.past b
            · rw [if_pos past] at on
              exact next (by omega) (Nat.le_add_right _ _) on
            · rw [if_neg past] at on
              have has : w.has b = true := by simpa [Window.has, past] using since
              exact next (by omega) (by rw [one has, List.length_append]; rfl) on

/-- A probe of the search that meets a record of a later lap, stamped past the window's end. -/
def Misled (w : Window) (u : Writer) (k : Nat) : Prop :=
  k + u.ring.capacity < u.written ∧ ∃ b, u.ring.sampleAt k = some b ∧ w.untilNs < b.ts

def unmisled (w : Window) (u : Writer) : RingCall → Prop
  | .readAt (.search k) _ => ¬Misled w u k
  | _ => True

theorem race_tsFromLoop {s t v : Writer} (ok : s.Consistent) {w : Window} {reader : RingReader}
    {left k i : Nat} {a : Sample} {result : Option Nat} (cap : reader.cap = s.ring.capacity)
    (indexed : i < s.ring.widx) (low : k ≤ i) (high : i < k + left)
    (unbegun : t.started ≤ i + s.ring.capacity) (record : t.sampleOf i = some a)
    (bound : a.ts ≤ w.untilNs)
    (ordered : ∀ j b, k ≤ j → j < i → t.sampleOf j = some b → b.ts ≤ a.ts)
    (race : Race (unmisled w) (reader.tsFromLoop left k) s result v) (rest : Steps v t) :
    ∃ x, result = some x ∧ x ≤ w.untilNs := by
  induction left generalizing s k with
  | zero => omega
  | succ left ih =>
      have whole := race.moves.trans rest
      rw [RingReader.tsFromLoop] at race
      obtain ⟨read, u', reading, race⟩ := Observer.exec_bind race
      rw [RingReader.read] at reading
      obtain ⟨buf, u'', asking, returned⟩ := Observer.exec_bind reading
      obtain ⟨u, before, after, allowed, rfl⟩ := Observer.exec_query asking
      have okU := steps_consistent before ok
      have laterU := steps_later before
      have moved : Steps u u' := after.trans returned.moves
      have laterT := steps_later ((moved.trans race.moves).trans rest)
      have sample : read = u.ring.sampleAt k := by
        rw [Observer.exec_pure returned, cap, ← laterU.capacity]
        change ((u.ring.readAt (k % u.ring.capacity)).bind decodeRecord) = _
        rw [u.ring.readAt_mod]
        rfl
      subst sample
      have startT := laterT.started
      have startU := written_le_started u
      have capU := laterU.capacity
      have indexU := laterU.widx
      have allowed : ¬Misled w u k := allowed
      have here : k = i → u.ring.sampleAt k = some a := fun same => by
        rw [sampleAt_of_unwritten okU laterT (by omega) (by omega), same, record]
      cases found : u.ring.sampleAt k with
      | none =>
          rw [found] at race here
          have other : k ≠ i := fun same => by cases here same
          have okU' := steps_consistent moved okU
          have laterU' := steps_later moved
          have capU' := laterU'.capacity
          have indexU' := laterU'.widx
          exact ih okU' (by omega) (by omega) (by omega) (by omega) (by omega)
            (fun j b more => ordered j b (by omega)) race
      | some b =>
          rw [found] at race
          refine ⟨b.ts, Observer.exec_pure race, ?_⟩
          by_cases same : k = i
          · rw [here same] at found
            cases found
            exact bound
          · by_cases lapped : k + u.ring.capacity < u.written
            · by_contra past
              exact allowed ⟨lapped, b, found, not_le.mp past⟩
            · rw [sampleAt_of_unwritten okU laterT (by omega) (by omega)] at found
              exact (ordered k b le_rfl (by omega) found).trans bound

theorem race_lowerBoundLoop {s t v : Writer} (ok : s.Consistent) {w : Window} {reader : RingReader}
    {lo hi i start : Nat} {a : Sample} (cap : reader.cap = s.ring.capacity)
    (indexed : i < s.ring.widx) (stop : i < reader.stop) (high : i < hi)
    (unbegun : t.started ≤ i + s.ring.capacity) (record : t.sampleOf i = some a)
    (bound : a.ts ≤ w.untilNs)
    (ordered : ∀ j b, lo ≤ j → j < i → t.sampleOf j = some b → b.ts ≤ a.ts)
    (race : Race (unmisled w) (reader.lowerBoundLoop (w.untilNs + 1) lo hi) s start v) (rest : Steps v t) :
    i < start := by
  induction size : hi - lo using Nat.strongRecOn generalizing s lo hi with
  | ind size' ih =>
      rw [RingReader.lowerBoundLoop] at race
      by_cases less : lo < hi
      · rw [if_pos less] at race
        obtain ⟨found, u, probing, race⟩ := Observer.exec_bind race
        have okU := steps_consistent probing.moves ok
        have laterU := steps_later probing.moves
        have capU := laterU.capacity
        have indexU := laterU.widx
        -- Either half that can hold `i` goes on with the same invariant.
        have next {lo' hi' : Nat} (shrunk : hi' - lo' < size') (grown : lo ≤ lo') (high' : i < hi')
            (race' : Race (unmisled w) (reader.lowerBoundLoop (w.untilNs + 1) lo' hi') u start v) :
            i < start :=
          ih _ shrunk okU (by omega) (by omega) high' (by omega)
            (fun j b more => ordered j b (by omega)) race' rfl
        by_cases before : lo + (hi - lo) / 2 ≤ i
        · obtain ⟨x, rfl, within⟩ := race_tsFromLoop ok cap indexed before (by omega) unbegun record bound
            (fun j b more => ordered j b (by omega)) probing (race.moves.trans rest)
          simp only [if_neg (show ¬x ≥ w.untilNs + 1 by omega)] at race
          exact next (by omega) (by omega) high race
        · cases found with
          | none => exact next (by omega) le_rfl (by omega) race
          | some x =>
              by_cases late : x ≥ w.untilNs + 1
              · simp only [if_pos late] at race
                exact next (by omega) le_rfl (by omega) race
              · simp only [if_neg late] at race
                exact next (by omega) (by omega) high race
      · rw [if_neg less] at race
        rw [Observer.exec_pure race]
        omega

theorem race_walkStart_keeps {s t v : Writer} (ok : s.Consistent) {w : Window} {i start : Nat} {a : Sample}
    (indexed : i < s.ring.widx) (unbegun : t.started ≤ i + s.ring.capacity)
    (record : t.sampleOf i = some a) (member : w.has a = true)
    (ordered : ∀ j b, s.ring.oldest ≤ j → j < i → t.sampleOf j = some b → b.ts ≤ a.ts)
    (race : Race (unmisled w) (walkStart w s.ring.capacity s.ring.widx) s start v) (rest : Steps v t) :
    i < start := by
  rw [walkStart] at race
  by_cases bounded : w.untilNs ≠ 0 ∧ w.untilNs ≠ UINT64_MAX
  · rw [if_pos bounded] at race
    obtain ⟨reader, u', making, race⟩ := Observer.exec_bind race
    obtain ⟨found, v', search, race⟩ := Observer.exec_bind race
    rw [RingReader.make] at making
    obtain ⟨widx, u'', asking, returned⟩ := Observer.exec_bind making
    obtain ⟨u, before, after, -, rfl⟩ := Observer.exec_query asking
    have moved : Steps s u' := (before.trans after).trans returned.moves
    have okU' := steps_consistent moved ok
    have laterU := steps_later before
    have laterU' := steps_later moved
    have laterT := steps_later (((after.trans returned.moves).trans search.moves).trans
      (race.moves.trans rest))
    have capU' := laterU'.capacity
    have indexU := laterU.widx
    have indexU' := laterU'.widx
    have startT := laterT.started
    have index : u.answer .writeIndex = u.ring.widx := rfl
    rw [index] at returned
    have made := Observer.exec_pure returned
    have bound : a.ts ≤ w.untilNs := by
      by_contra past
      simp [Window.has, Window.past, bounded.1, not_le.mp past] at member
    have after' : i < found := by
      refine race_lowerBoundLoop okU' ?_ (by omega) ?_ ?_ (by omega) record bound ?_ search
        (race.moves.trans rest)
      · rw [made, capU']
      · rw [made]
        exact indexed.trans_le indexU
      · rw [made]
        exact indexed.trans_le indexU
      · intro j b low
        refine ordered j b ?_
        rw [made] at low
        simp only [RingFile.oldest, RingFile.count]
        change u.ring.widx - (if u.ring.widx < s.ring.capacity then u.ring.widx else s.ring.capacity) ≤ j at low
        split at low <;> omega
    rw [Observer.exec_pure race]
    omega
  · rw [if_neg bounded] at race
    rw [Observer.exec_pure race]
    exact indexed

theorem range'_sublist {a n i m : Nat} (low : a ≤ i) (high : i + m ≤ a + n) :
    (List.range' i m).Sublist (List.range' a n) := by
  have split : List.range' a n = List.range' a (i - a) ++ (List.range' i m ++
      List.range' (i + m) (a + n - (i + m))) := by
    rw [List.range'_append_1, show List.range' i _ = List.range' (a + (i - a)) _ by
      rw [Nat.add_sub_cancel' low], List.range'_append_1]
    congr 1
    omega
  rw [split]
  exact (List.sublist_append_left _ _).trans (List.sublist_append_right _ _)

/-- A query beside the writer keeps what is there, from its read of the write index on: a record of
the window is in the answer if no write over its slot has begun when the query ends, the window's
records fit and the search is not misled. -/
theorem race_query_keeps (r : RingFile) (quiet : r.Quiescent) (s : Writer)
    (reached : Steps (Writer.rest r) s) (w : Window) (result : List (Nat × Sample)) (t : Writer)
    (race : Race (unmisled w) (queryRingFrom s.ring.capacity w s.ring.widx) s result t)
    (ordered : ∀ i j a b, s.ring.oldest ≤ i → i < j → j < t.started →
      t.sampleOf i = some a → t.sampleOf j = some b → a.ts ≤ b.ts)
    (limit : inWindow w s s.intact ≤ w.maxRecords) (i : Nat) (a : Sample) (indexed : i < s.ring.widx)
    (record : s.sampleOf i = some a) (member : w.has a = true)
    (unbegun : t.started ≤ i + s.ring.capacity) : (i, a) ∈ result := by
  have ok := steps_consistent reached (rest_consistent quiet)
  have laterT := steps_later race.moves
  have written := widx_le_written s
  have started := written_le_started s
  have startT := laterT.started
  have recordT : t.sampleOf i = some a := by
    rw [sampleOf, laterT.log i (by omega)]
    exact record
  have low : s.ring.oldest ≤ i := by
    simp only [RingFile.oldest, RingFile.count]
    omega
  rcases race_queryRingFrom .refl race with ⟨-, none | crossed⟩ | ⟨v, start, newestFirst, search, walking, rfl⟩
  · omega
  · have since : w.sinceNs ≤ a.ts ∧ ¬w.past a := by
      simpa [Window.has] using member
    exact absurd ⟨crossed.1, by omega⟩ since.2
  · have okV := steps_consistent search.moves ok
    have laterV := steps_later search.moves
    have begin := race_walkStart_keeps ok indexed unbegun recordT member
      (fun j b lowJ less readJ => ordered j i b a lowJ less (by omega) readJ recordT) search walking.moves
    obtain ⟨high, bottom⟩ := race_walkStart search
    rw [← count_eq_ite] at bottom
    have count := s.ring.count_le_widx
    have indexV := laterV.widx
    have capV := laterV.capacity
    have total := s.ring.oldest_add_count
    have sinceA : w.sinceNs ≤ a.ts := by
      simp only [Window.has, Bool.and_eq_true, decide_eq_true_eq] at member
      exact member.1
    rw [List.mem_reverse]
    refine race_walk_keeps okV indexV (by omega) (by omega) (by omega) (by omega) ?_ recordT member ?_ walking
    · intro j b after before readJ
      rcases Nat.eq_or_lt_of_le after with rfl | less
      · rw [recordT] at readJ
        cases readJ
        exact sinceA
      · exact sinceA.trans (ordered i j a b low less (by omega) recordT readJ)
    · have same : inWindow w t s.intact = inWindow w s s.intact := by
        have read : s.intact.filterMap t.sampleOf = s.intact.filterMap s.sampleOf := by
          apply List.filterMap_congr
          intro j inside
          have bounds := List.mem_range'_1.mp inside
          rw [sampleOf, laterT.log j (by omega)]
          rfl
        rw [inWindow, inWindow, read]
      have sub := range'_sublist (a := s.started - s.ring.capacity)
        (n := s.ring.widx - (s.started - s.ring.capacity)) (i := i)
        (m := s.ring.widx - (s.ring.widx - start) - i) (by omega) (by omega)
      rw [List.length_nil, Nat.zero_add]
      exact ((sub.filterMap t.sampleOf).countP_le).trans (same.le.trans limit)

end Keeps

/-! ## Runs on small rings -/

/-- A full ring of L3 records stamped 1, 2, ... in the order of its slots. -/
def filled (capacity : Nat) (pos : 0 < capacity) : RingFile :=
  ⟨1, capacity, pos, fun i => (l3Record (UInt64.ofNat (i + 1))).bytes, capacity, capacity, capacity, 0⟩

def appended (w : Writer) (stamp : UInt64) : Writer :=
  ⟨(w.ring.append (l3Record stamp).bytes .written).2, .idle,
    Function.update w.log w.ring.widx (l3Record stamp).bytes⟩

theorem steps_appended (r : RingFile) (log : Nat → Record) (stamp : UInt64) :
    Steps ⟨r, .idle, log⟩ (appended ⟨r, .idle, log⟩ stamp) :=
  steps_append r log (l3Record stamp).size

theorem appended_ring (w : Writer) (stamp : UInt64) : (appended w stamp).ring = { w.ring with
    slots := Function.update w.ring.slots (w.ring.widx % w.ring.capacity) (l3Record stamp).bytes
    writeIdx := w.ring.widx + 1, widx := w.ring.widx + 1, begun := w.ring.widx + 1 } := by
  simp only [appended, w.ring.append_written (l3Record stamp).size, RingFile.slot]

theorem appended_log (w : Writer) (stamp : UInt64) :
    (appended w stamp).log = Function.update w.log w.ring.widx (l3Record stamp).bytes := rfl

theorem decode_l3Record (stamp : UInt64) :
    decodeRecord (l3Record stamp).bytes = some (l3Record stamp).sample :=
  (l3Record stamp).decodes

theorem filled_sampleOf (capacity : Nat) (pos : 0 < capacity) {i : Nat} (less : i < capacity) :
    (Writer.rest (filled capacity pos)).sampleOf i = some (l3Record (UInt64.ofNat (i + 1))).sample := by
  simp only [sampleOf, Writer.rest, filled, Nat.mod_eq_of_lt less, decode_l3Record]

theorem stamped_ordered {t : Writer} {n : Nat} (small : n < 2 ^ 64)
    (stamped : ∀ k, k < n → t.sampleOf k = some (l3Record (UInt64.ofNat (k + 1))).sample) {i j : Nat}
    {a b : Sample} (less : i < j) (high : j < n) (readI : t.sampleOf i = some a)
    (readJ : t.sampleOf j = some b) : a.ts ≤ b.ts := by
  rw [stamped i (by omega)] at readI
  rw [stamped j high] at readJ
  cases readI
  cases readJ
  rw [l3Record_ts, l3Record_ts, UInt64.toNat_ofNat', UInt64.toNat_ofNat']
  omega

theorem inWindow_le_length (w : Window) (t : Writer) (indices : List Nat) :
    inWindow w t indices ≤ indices.length :=
  List.countP_le_length.trans (List.length_filterMap_le _ _)

theorem run_tsFrom_here {s : Writer} {reader : RingReader} {k : Nat} {a : Sample}
    (cap : reader.cap = s.ring.capacity) (less : k < reader.stop) (read : s.ring.sampleAt k = some a) :
    (reader.tsFrom k).run s.answer = some a.ts := by
  have slot : ((s.ring.readAt (k % s.ring.capacity)).bind decodeRecord) = some a := by
    rw [s.ring.readAt_mod]
    exact read
  rw [RingReader.tsFrom, show reader.stop - k = (reader.stop - k - 1) + 1 by omega, RingReader.tsFromLoop,
    RingReader.read, cap]
  simp only [readAt, Observer.run_bind, Observer.run_query, Observer.run_pure, Writer.answer,
    RingFile.answer, slot]

theorem race_query_laps_lapped :
    ∃ t, Race (fun _ _ => True) (queryRingAt 2 ⟨0, 0, 5⟩) (Writer.rest (filled 2 (by decide)))
      [(1, (l3Record 2).sample)] t ∧ t.sampleOf 1 = some (l3Record 2).sample := by
  let s := Writer.rest (filled 2 (by decide))
  let t := appended s 3
  have begun : t.answer .writeBegun = (3 : Nat) := by
    simp [t, s, Writer.answer, Writer.rest, appended_ring, RingFile.answer, RingFile.writeBegun, filled]
  have one : t.answer (.readAt (.walk 1) 1) = some (l3Record 2).bytes := by
    simp [t, s, Writer.answer, Writer.rest, appended_ring, RingFile.answer, RingFile.readAt, filled]
  have zero : t.answer (.readAt (.walk 0) 0) = some (l3Record 3).bytes := by
    simp [t, s, Writer.answer, Writer.rest, appended_ring, RingFile.answer, RingFile.readAt, filled]
  have value : (queryRingFrom 2 ⟨0, 0, 5⟩ 2).run t.answer = [(1, (l3Record 2).sample)] := by
    simp [queryRingFrom, walkStart, walk, readAt, writeBegun, one, zero, begun, decode_l3Record, Window.past]
  have race : Race (fun _ _ => True) (queryRingAt 2 ⟨0, 0, 5⟩) s [(1, (l3Record 2).sample)] t := by
    rw [← value]
    exact (Observer.Exec.run writeIndex fun _ => trivial).bind
      (Observer.Exec.after (steps_appended _ _ 3) (Observer.Exec.run _ fun _ => trivial))
  exact ⟨t, race, ((race_query_laps (filled 2 (by decide)) ⟨rfl, rfl⟩ ⟨0, 0, 5⟩ _ t race).1 (1, _)
    (List.mem_singleton.mpr rfl)).2.2⟩

theorem race_query_keeps_newer :
    ∃ result t, Race (unmisled ⟨0, 2, 5⟩) (queryRingFrom 2 ⟨0, 2, 5⟩ 2)
      (Writer.rest (filled 2 (by decide))) result t ∧ (1, (l3Record 2).sample) ∈ result := by
  let s := Writer.rest (filled 2 (by decide))
  let t := appended s 3
  have allowed : ∀ op, unmisled ⟨0, 2, 5⟩ s op := by
    intro op
    cases op with
    | writeIndex => trivial
    | writeBegun => trivial
    | readAt caller index =>
        cases caller with
        | walk logical => trivial
        | search logical =>
            rintro ⟨lapped, -⟩
            have : logical + 2 < 2 := lapped
            omega
  have race : Race (unmisled ⟨0, 2, 5⟩) (queryRingFrom 2 ⟨0, 2, 5⟩ 2) s
      ((queryRingFrom 2 ⟨0, 2, 5⟩ 2).run s.answer) t :=
    (Observer.Exec.run _ allowed).before (steps_appended _ _ 3)
  have stamped (k : Nat) (less : k < 3) :
      t.sampleOf k = some (l3Record (UInt64.ofNat (k + 1))).sample := by
    obtain rfl | rfl | rfl : k = 0 ∨ k = 1 ∨ k = 2 := by omega
    all_goals simp [t, s, Writer.rest, appended_log, sampleOf, filled, decode_l3Record]
  have started : t.started = 3 := by
    simp [t, s, Writer.rest, appended, Writer.started, RingFile.append_written _ (l3Record _).size, filled]
  exact ⟨_, t, race, race_query_keeps (filled 2 (by decide)) ⟨rfl, rfl⟩ s .refl ⟨0, 2, 5⟩ _ t race
    (fun i j a b _ less high => stamped_ordered (by decide) stamped less (started ▸ high))
    ((inWindow_le_length _ _ _).trans (by decide)) 1 _ (by decide)
    (filled_sampleOf _ (by decide) (by decide)) (by decide) (by rw [started]; decide)⟩

/-- What a reader might expect instead: a record of the window is in the answer if its slot has not
been written over when the query ends. -/
def KeepsUnwritten (s : Writer) (w : Window) (result : List (Nat × Sample)) (t : Writer) : Prop :=
  (∀ i j a b, s.ring.oldest ≤ i → i < j → j < t.started →
    t.sampleOf i = some a → t.sampleOf j = some b → a.ts ≤ b.ts) →
  inWindow w s s.intact ≤ w.maxRecords →
  ∀ i a, i < s.ring.widx → s.sampleOf i = some a → w.has a = true →
    t.written ≤ i + s.ring.capacity → (i, a) ∈ result

theorem begun_dropped :
    ∃ result t, Race (fun _ _ => True) (queryRingFrom 1 ⟨0, 0, 1⟩ 1) (Writer.rest (filled 1 (by decide)))
      result t ∧ ¬KeepsUnwritten (Writer.rest (filled 1 (by decide))) ⟨0, 0, 1⟩ result t := by
  let s := Writer.rest (filled 1 (by decide))
  let t : Writer :=
    ⟨s.ring.raiseBegun, .begun (l3Record 2).bytes, Function.update s.log 1 (l3Record 2).bytes⟩
  refine ⟨[], t, ?_, ?_⟩
  · apply Observer.Exec.ask trivial
    apply Observer.Exec.env (.begin s.ring s.log (l3Record 2).bytes (l3Record 2).size)
    exact .ask trivial (.done [] t)
  · intro keeps
    have stamped (k : Nat) (less : k < 2) :
        t.sampleOf k = some (l3Record (UInt64.ofNat (k + 1))).sample := by
      obtain rfl | rfl : k = 0 ∨ k = 1 := by omega
      · exact filled_sampleOf 1 (by decide) (by decide)
      · exact decode_l3Record 2
    have lost := keeps (fun i j a b _ less high => stamped_ordered (by decide) stamped less high)
      (inWindow_le_length _ _ _) 0 (l3Record 1).sample (by decide)
      (filled_sampleOf _ (by decide) (by decide)) (by decide) (by decide)
    cases lost

theorem misled_lost : ∃ result t, Race (fun _ _ => True) (queryRingFrom 3 ⟨0, 3, 5⟩ 3)
    (Writer.rest (filled 3 (by decide))) result t ∧
    ¬KeepsUnwritten (Writer.rest (filled 3 (by decide))) ⟨0, 3, 5⟩ result t := by
  let s := Writer.rest (filled 3 (by decide))
  let t := appended (appended s 4) 5
  have zero : t.ring.sampleAt 0 = some (l3Record 4).sample := by
    simp [t, s, Writer.rest, appended_ring, RingFile.sampleAt, filled, decode_l3Record]
  have one : t.ring.sampleAt 1 = some (l3Record 5).sample := by
    simp [t, s, Writer.rest, appended_ring, RingFile.sampleAt, filled, decode_l3Record]
  have cap : t.ring.capacity = 3 := by simp [t, s, Writer.rest, appended_ring, filled]
  have moved : Steps s t := (steps_appended _ _ 4).trans (steps_appended _ _ 5)
  let stale : RingReader := ⟨3, 0, 3⟩
  have found : (stale.lowerBound 4).run t.answer = 0 := by
    have second : (stale.tsFrom 1).run t.answer = some 5 := run_tsFrom_here cap.symm (by decide) one
    have first : (stale.tsFrom 0).run t.answer = some 4 := run_tsFrom_here cap.symm (by decide) zero
    change (stale.lowerBoundLoop 4 0 3).run t.answer = 0
    rw [RingReader.lowerBoundLoop, if_pos (by decide), Observer.run_bind,
      show 0 + (3 - 0) / 2 = 1 from rfl, second]
    change (stale.lowerBoundLoop 4 0 1).run t.answer = 0
    rw [RingReader.lowerBoundLoop, if_pos (by decide), Observer.run_bind,
      show 0 + (1 - 0) / 2 = 0 from rfl, first]
    change (stale.lowerBoundLoop 4 0 0).run t.answer = 0
    rw [RingReader.lowerBoundLoop, if_neg (by decide), Observer.run_pure]
  have start : Race (fun _ _ => True) (walkStart ⟨0, 3, 5⟩ 3 3) s 0 t := by
    rw [walkStart, if_pos (by decide)]
    have search : Race (fun _ _ => True) (stale.lowerBound 4) t ((stale.lowerBound 4).run t.answer) t :=
      Observer.Exec.run _ fun _ => trivial
    rw [found] at search
    exact (Observer.Exec.run (RingReader.make 3) fun _ => trivial).bind
      (Observer.Exec.after moved (search.bind (.done 0 t)))
  refine ⟨[], t, ?_, ?_⟩
  · rw [queryRingFrom, if_neg (by decide), if_neg (by decide)]
    exact start.bind (.done [] t)
  · intro keeps
    have stamped (k : Nat) (less : k < 5) :
        t.sampleOf k = some (l3Record (UInt64.ofNat (k + 1))).sample := by
      obtain rfl | rfl | rfl | rfl | rfl : k = 0 ∨ k = 1 ∨ k = 2 ∨ k = 3 ∨ k = 4 := by omega
      all_goals simp [t, s, Writer.rest, appended_log, appended_ring, sampleOf, filled, decode_l3Record]
    have counts : t.written = 5 ∧ t.started = 5 := by
      constructor <;> simp [t, s, Writer.rest, appended, Writer.written, Writer.started,
        RingFile.append_written _ (l3Record _).size, filled]
    have lost := keeps
      (fun i j a b _ less high => stamped_ordered (by decide) stamped less (counts.2 ▸ high))
      ((inWindow_le_length _ _ _).trans (by decide)) 2 (l3Record 3).sample (by decide)
      (filled_sampleOf _ (by decide) (by decide)) (by decide) (by rw [counts.1]; decide)
    cases lost

theorem racing_query_loses :
    (∃ result t, Race (fun _ _ => True) (queryRingFrom 1 ⟨0, 0, 1⟩ 1) (Writer.rest (filled 1 (by decide)))
      result t ∧ ¬KeepsUnwritten (Writer.rest (filled 1 (by decide))) ⟨0, 0, 1⟩ result t) ∧
    (∃ result t, Race (fun _ _ => True) (queryRingFrom 3 ⟨0, 3, 5⟩ 3) (Writer.rest (filled 3 (by decide)))
      result t ∧ ¬KeepsUnwritten (Writer.rest (filled 3 (by decide))) ⟨0, 3, 5⟩ result t) :=
  ⟨begun_dropped, misled_lost⟩

end Budyk.Proof
