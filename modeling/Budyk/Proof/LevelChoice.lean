import Budyk.Proof.Levels

/-! `Scheduler::select` and `Scheduler::higher` decide between levels by the same order. -/

namespace Budyk.Proof
open Lib Scheduler Spec

def Beats (cfg : SchedulerConfig) (a b : Level) : Prop :=
  priority cfg b < priority cfg a ∨ priority cfg a = priority cfg b ∧ intervalMs cfg a < intervalMs cfg b

section Choice
variable {cfg : SchedulerConfig}

theorem beats_iff {a b : Level} : Beats cfg a b ↔ rank cfg b < rank cfg a := by
  rw [Beats, rank, rank, Prod.Lex.toLex_lt_toLex]
  simp only
  omega

theorem higher_eq (a b : Level) : higher cfg a b = firstBest (rank cfg) a b := by
  have iff := @beats_iff cfg b a
  unfold Beats at iff
  unfold higher firstBest
  by_cases same : priority cfg a = priority cfg b
  · have shorter : rank cfg a < rank cfg b ↔ intervalMs cfg b < intervalMs cfg a := by
      rw [← iff]
      omega
    simp only [same, ne_eq, not_true_eq_false, if_false, shorter]
  · have above : rank cfg a < rank cfg b ↔ ¬priority cfg a > priority cfg b := by
      rw [← iff]
      omega
    simp only [ne_eq, same, not_false_eq_true, if_true, above, ite_not]

theorem higher_eq_better : higher cfg = better cfg := by
  funext a b
  exact higher_eq a b

theorem rank_higher (a b : Level) : rank cfg (higher cfg a b) = max (rank cfg a) (rank cfg b) := by
  rw [higher_eq, key_firstBest (rank cfg)]

theorem priority_le_of_rank_le {a b : Level} (le : rank cfg a ≤ rank cfg b) : priority cfg a ≤ priority cfg b := by
  have unbeaten : ¬Beats cfg a b := fun beats => absurd (beats_iff.mp beats) (not_lt.mpr le)
  unfold Beats at unbeaten
  omega

theorem not_beats_higher (a b : Level) : ¬Beats cfg a (higher cfg a b) ∧ ¬Beats cfg b (higher cfg a b) := by
  rw [beats_iff, beats_iff, rank_higher]
  exact ⟨not_lt.mpr (le_max_left _ _), not_lt.mpr (le_max_right _ _)⟩

theorem select_mem (s : Scheduler) (now : Nat) : select cfg s now ∈ Level.L1 :: activeLevels cfg s now := by
  rw [← filter_levels]
  exact List.argmax_mem (Option.mem_def.mpr (select_eq s now))

theorem not_beats_select {s : Scheduler} {now : Nat} {level : Level}
    (active : level ∈ Level.L1 :: activeLevels cfg s now) : ¬Beats cfg level (select cfg s now) := by
  rw [beats_iff]
  rw [← filter_levels] at active
  exact List.not_lt_of_mem_argmax active (Option.mem_def.mpr (select_eq s now))

end Choice

theorem select_agrees_with_higher (cfg : SchedulerConfig) (s : Scheduler) (now : Nat) :
    (select cfg s now = Level.L1 ∨ select cfg s now ∈ activeLevels cfg s now) ∧
    (∀ level ∈ Level.L1 :: activeLevels cfg s now, ¬Beats cfg level (select cfg s now)) ∧
    (activeLevels cfg s now).foldl (higher cfg) Level.L1 = select cfg s now ∧
    (∀ a, higher cfg a a = a) ∧
    (∀ a b c, higher cfg (higher cfg a b) c = higher cfg a (higher cfg b c)) ∧
    (∀ a b, (higher cfg a b = a ∨ higher cfg a b = b) ∧
      priority cfg a ≤ priority cfg (higher cfg a b) ∧ priority cfg b ≤ priority cfg (higher cfg a b)) ∧
    ∀ sleptAt, ¬Beats cfg sleptAt (higher cfg sleptAt (select cfg s now)) ∧
      ¬Beats cfg (select cfg s now) (higher cfg sleptAt (select cfg s now)) := by
  refine ⟨List.mem_cons.mp (select_mem s now), fun _ active => not_beats_select active, ?_, ?_, ?_, ?_, ?_⟩
  · rw [higher_eq_better, ← select_eq_foldl]
  · intro a
    rw [higher_eq, firstBest_self]
  · intro a b c
    simp only [higher_eq]
    exact firstBest_assoc _ a b c
  · intro a b
    refine ⟨?_, ?_, ?_⟩
    · rw [higher_eq]
      exact firstBest_or _ a b
    · apply priority_le_of_rank_le
      rw [rank_higher]
      exact le_max_left _ _
    · apply priority_le_of_rank_le
      rw [rank_higher]
      exact le_max_right _ _
  · exact fun sleptAt => not_beats_higher sleptAt (select cfg s now)

end Budyk.Proof
