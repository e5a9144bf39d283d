import Mathlib.Data.List.Induction
import Mathlib.Order.MinMax
import Budyk.HotBuffer.WarmGrace

/-! The hot buffer is emptied once for every idle spell, and the daemon wakes for it. -/

namespace Budyk.Proof
open WarmGrace

/-- A call with a client or on a fast tick: it starts the grace over. -/
def Busy (call : WarmGrace.Call) : Prop := 0 < call.clients ∨ call.fast = true

section Calls
variable {w : WarmGrace} {call : WarmGrace.Call}

theorem shouldReset_of_busy (busy : Busy call) : w.shouldReset call =
    (false, { w with connected := decide (call.clients > 0), lastClientNs := call.nowNs, pending := true }) := by
  have busy' : (decide (call.clients > 0) || call.fast) = true := by simpa [Busy] using busy
  rw [shouldReset]
  simp only [busy', if_true]

theorem shouldReset_of_idle (idle : ¬Busy call) : w.shouldReset call =
    if !w.pending then (false, { w with connected := false })
    else if call.nowNs < w.lastClientNs then (false, { w with connected := false, lastClientNs := call.nowNs })
    else if call.nowNs - w.lastClientNs < w.graceNs then (false, { w with connected := false })
    else (true, { w with connected := false, pending := false }) := by
  unfold Busy at idle
  push Not at idle
  have none : decide (call.clients > 0) = false := decide_eq_false (not_lt.mpr idle.1)
  have slow : call.fast = false := by simpa using idle.2
  rw [shouldReset]
  simp only [none, slow, Bool.or_self, Bool.false_eq_true, if_false]

theorem shouldReset_eq_true (idle : ¬Busy call) : (w.shouldReset call).1 = true ↔
    w.pending = true ∧ w.lastClientNs ≤ call.nowNs ∧ w.graceNs ≤ call.nowNs - w.lastClientNs := by
  rw [shouldReset_of_idle idle]
  cases w.pending with
  | false => simp
  | true =>
      simp only [Bool.not_true, Bool.false_eq_true, if_false, true_and]
      split_ifs <;> simp <;> omega

theorem idle_of_reset (reset : (w.shouldReset call).1 = true) : ¬Busy call := by
  intro busy
  rw [shouldReset_of_busy busy] at reset
  cases reset

theorem step_of_idle (idle : ¬Busy call) (kept : (w.shouldReset call).1 = false) :
    (w.step call).pending = w.pending ∧
      (w.lastClientNs ≤ call.nowNs → (w.step call).lastClientNs = w.lastClientNs) := by
  rw [step]
  rw [shouldReset_of_idle idle] at kept ⊢
  cases pending : w.pending with
  | false => simp
  | true =>
      simp only [pending, Bool.not_true, Bool.false_eq_true, if_false] at kept ⊢
      split_ifs at kept ⊢ <;> simp_all

theorem step_of_reset (reset : (w.shouldReset call).1 = true) : (w.step call).pending = false := by
  have idle := idle_of_reset reset
  obtain ⟨pending, order, due⟩ := (shouldReset_eq_true idle).mp reset
  rw [step, shouldReset_of_idle idle, pending]
  simp only [Bool.not_true, Bool.false_eq_true, if_false, if_neg (not_lt.mpr order), if_neg (not_lt.mpr due)]

theorem warm_step_connected : (w.step call).connected = decide (call.clients > 0) := by
  by_cases busy : Busy call
  · rw [step, shouldReset_of_busy busy]
  · have none : decide (call.clients > 0) = false := decide_eq_false fun some => busy (Or.inl some)
    rw [step, shouldReset_of_idle busy, none]
    split_ifs <;> rfl

theorem warm_step_graceNs : (w.step call).graceNs = w.graceNs := by
  by_cases busy : Busy call
  · rw [step, shouldReset_of_busy busy]
  · rw [step, shouldReset_of_idle busy]
    split_ifs <;> rfl

end Calls

/-! ## The spell -/

def OnwardClock (calls : List WarmGrace.Call) : Prop := calls.Pairwise fun c d => c.nowNs ≤ d.nowNs

/-- `calls` ends in an idle spell that began after `b`, and nothing was reset in it. -/
structure Spell (w : WarmGrace) (calls : List WarmGrace.Call) where
  older : List WarmGrace.Call
  b : WarmGrace.Call
  idle : List WarmGrace.Call
  split : calls = older ++ b :: idle
  busy : Busy b
  quiet : ∀ c ∈ idle, ¬Busy c
  kept : ∀ answer ∈ (w.run (older ++ [b])).answers idle, answer = false
  stamp : OnwardClock calls → (w.run calls).lastClientNs = b.nowNs

section Runs
variable {w : WarmGrace} {calls : List WarmGrace.Call} {call : WarmGrace.Call}

theorem warm_run_graceNs (w : WarmGrace) (calls : List WarmGrace.Call) : (w.run calls).graceNs = w.graceNs := by
  induction calls using List.reverseRecOn with
  | nil => rfl
  | append_singleton calls call ih => rw [WarmGrace.run_concat, warm_step_graceNs, ih]

theorem warm_run_connected (w : WarmGrace) (calls : List WarmGrace.Call) (call : WarmGrace.Call) :
    (w.run (calls ++ [call])).connected = decide (call.clients > 0) := by
  rw [WarmGrace.run_concat, warm_step_connected]

theorem OnwardClock.before (onward : OnwardClock (calls ++ [call])) : OnwardClock calls ∧ ∀ c ∈ calls, c.nowNs ≤ call.nowNs := by
  obtain ⟨calls', -, cross⟩ := List.pairwise_append.mp onward
  exact ⟨calls', fun c member => cross c member call (List.mem_singleton_self call)⟩

def Spell.start (w : WarmGrace) (calls : List WarmGrace.Call) (busy : Busy call) : Spell w (calls ++ [call]) where
  older := calls
  b := call
  idle := []
  split := rfl
  busy := busy
  quiet := fun _ absent => absurd absent List.not_mem_nil
  kept := fun _ absent => absurd absent List.not_mem_nil
  stamp := fun _ => by rw [WarmGrace.run_concat, step, shouldReset_of_busy busy]

def Spell.extend (spell : Spell w calls) (idle : ¬Busy call) (kept : ((w.run calls).shouldReset call).1 = false) :
    Spell w (calls ++ [call]) where
  older := spell.older
  b := spell.b
  idle := spell.idle ++ [call]
  split := by
    rw [← List.cons_append, ← List.append_assoc, ← spell.split]
  busy := spell.busy
  quiet := by
    intro c member
    rcases List.mem_append.mp member with earlier | last
    · exact spell.quiet c earlier
    · exact List.mem_singleton.mp last ▸ idle
  kept := by
    have whole : (w.run (spell.older ++ [spell.b])).run spell.idle = w.run calls := by
      conv_rhs => rw [spell.split]
      simp [WarmGrace.run]
    intro answer member
    rw [WarmGrace.answers_concat, whole, kept] at member
    rcases List.mem_append.mp member with earlier | last
    · exact spell.kept answer earlier
    · exact List.mem_singleton.mp last
  stamp := by
    intro onward
    obtain ⟨before, order⟩ := onward.before
    have same := spell.stamp before
    have member : spell.b ∈ spell.older ++ spell.b :: spell.idle := by simp
    rw [← spell.split] at member
    rw [WarmGrace.run_concat, (step_of_idle idle kept).2 (same ▸ order spell.b member), same]

theorem spell_of_pending (grace : Fin (2 ^ 64 - 1)) (calls : List WarmGrace.Call)
    (pending : ((WarmGrace.new grace).run calls).pending = true) : Nonempty (Spell (WarmGrace.new grace) calls) := by
  induction calls using List.reverseRecOn with
  | nil => cases pending
  | append_singleton calls call ih =>
      by_cases busy : Busy call
      · exact ⟨Spell.start (WarmGrace.new grace) calls busy⟩
      · rw [WarmGrace.run_concat] at pending
        cases reset : (((WarmGrace.new grace).run calls).shouldReset call).1 with
        | true =>
            rw [step_of_reset reset] at pending
            cases pending
        | false =>
            rw [(step_of_idle busy reset).1] at pending
            obtain ⟨spell⟩ := ih pending
            exact ⟨spell.extend busy reset⟩

/-- A reset ends an idle spell, the first to do so, and not before its grace is over. -/
theorem reset_ends_spell (grace : Fin (2 ^ 64 - 1)) (calls : List WarmGrace.Call) (call : WarmGrace.Call)
    (reset : (((WarmGrace.new grace).run calls).shouldReset call).1 = true) :
    ¬Busy call ∧ ∃ older b idle, calls = older ++ b :: idle ∧ Busy b ∧ (∀ c ∈ idle, ¬Busy c) ∧
      (∀ answer ∈ ((WarmGrace.new grace).run (older ++ [b])).answers idle, answer = false) ∧
      (OnwardClock (calls ++ [call]) → b.nowNs + grace ≤ call.nowNs) := by
  have idle := idle_of_reset reset
  obtain ⟨pending, order, due⟩ := (shouldReset_eq_true idle).mp reset
  obtain ⟨spell⟩ := spell_of_pending grace calls pending
  refine ⟨idle, spell.older, spell.b, spell.idle, spell.split, spell.busy, spell.quiet, spell.kept, ?_⟩
  intro onward
  rw [spell.stamp onward.before.1] at order due
  rw [warm_run_graceNs] at due
  change (grace : Nat) ≤ _ at due
  omega

end Runs

/-! ## The sleep -/

section Sleep
variable {w : WarmGrace}

theorem nsUntilDue_finite {nowNs : Nat} : w.nsUntilDue nowNs ≠ 2 ^ 64 - 1 ↔ w.pending = true ∧ w.connected = false := by
  have bound := w.graceLt
  unfold nsUntilDue
  cases pending : w.pending with
  | false => simp
  | true =>
      cases connected : w.connected with
      | true => simp
      | false =>
          simp only [Bool.not_true, Bool.or_self, Bool.false_eq_true, if_false, and_self, iff_true]
          split_ifs <;> omega

/-- At the clock's own time or later, the reset is due a full grace after the last stamp. -/
theorem due_iff {nowNs t : Nat} (pending : w.pending = true) (away : w.connected = false)
    (order : w.lastClientNs ≤ nowNs) (later : nowNs ≤ t) :
    nowNs + w.nsUntilDue nowNs ≤ t ↔ w.graceNs ≤ t - w.lastClientNs := by
  rw [nsUntilDue, pending, away]
  simp only [Bool.not_true, Bool.or_self, Bool.false_eq_true, if_false, if_neg (not_lt.mpr order)]
  split_ifs <;> omega

theorem shouldReset_iff_due (away : w.connected = false) {nowNs t : Nat} (order : w.lastClientNs ≤ nowNs)
    (later : nowNs ≤ t) : (w.shouldReset ⟨0, t, false⟩).1 = true ↔
      w.nsUntilDue nowNs ≠ 2 ^ 64 - 1 ∧ nowNs + w.nsUntilDue nowNs ≤ t := by
  have idle : ¬Busy ⟨0, t, false⟩ := by simp [Busy]
  rw [shouldReset_eq_true idle, nsUntilDue_finite]
  constructor
  · rintro ⟨pending, -, due⟩
    exact ⟨⟨pending, away⟩, (due_iff pending away order later).mpr due⟩
  · rintro ⟨⟨pending, -⟩, due⟩
    exact ⟨pending, order.trans later, (due_iff pending away order later).mp due⟩

theorem capSleepMs_le (sleepMs floorMs : Int) (nowNs : Nat) : w.capSleepMs sleepMs nowNs floorMs ≤ sleepMs := by
  simp only [capSleepMs]
  split_ifs <;> omega

theorem le_capSleepMs (sleepMs floorMs : Int) (nowNs : Nat) :
    min sleepMs floorMs ≤ w.capSleepMs sleepMs nowNs floorMs := by
  simp only [capSleepMs]
  split_ifs <;> omega

theorem due_of_capSleepMs_lt {sleepMs floorMs : Int} {nowNs : Nat} (cut : w.capSleepMs sleepMs nowNs floorMs < sleepMs) :
    w.nsUntilDue nowNs ≠ 2 ^ 64 - 1 ∧
      w.nsUntilDue nowNs ≤ (w.capSleepMs sleepMs nowNs floorMs).toNat * 1000000 := by
  have whole := Nat.lt_div_mul_add (a := w.nsUntilDue nowNs) (b := 1000000) (by decide)
  simp only [capSleepMs] at cut ⊢
  split_ifs at cut ⊢ <;> omega

end Sleep

/-- The daemon's grace: what a reset ends, when it is due, and how far a sleep is cut for it. -/
theorem warm_grace (grace : Fin (2 ^ 64 - 1)) (calls : List WarmGrace.Call) :
    let w := (WarmGrace.new grace).run calls
    (∀ call, (w.shouldReset call).1 = true → ¬Busy call ∧ ∃ older b idle, calls = older ++ b :: idle ∧ Busy b ∧
      (∀ c ∈ idle, ¬Busy c) ∧ (∀ answer ∈ ((WarmGrace.new grace).run (older ++ [b])).answers idle, answer = false) ∧
      (OnwardClock (calls ++ [call]) → b.nowNs + grace ≤ call.nowNs)) ∧
    ((∀ last ∈ calls.getLast?, last.clients ≤ 0) → ∀ nowNs t, w.lastClientNs ≤ nowNs → nowNs ≤ t →
      ((w.shouldReset ⟨0, t, false⟩).1 = true ↔
        w.nsUntilDue nowNs ≠ 2 ^ 64 - 1 ∧ nowNs + w.nsUntilDue nowNs ≤ t)) ∧
    ∀ sleepMs nowNs floorMs, let capped := w.capSleepMs sleepMs nowNs floorMs
      capped ≤ sleepMs ∧ min sleepMs floorMs ≤ capped ∧
      (capped < sleepMs → w.lastClientNs ≤ nowNs →
        (w.shouldReset ⟨0, nowNs + capped.toNat * 1000000, false⟩).1 = true) := by
  intro w
  refine ⟨fun call reset => reset_ends_spell grace calls call reset, ?_, ?_⟩
  · intro clientless nowNs t order later
    refine shouldReset_iff_due ?_ order later
    cases calls using List.reverseRecOn with
    | nil => rfl
    | append_singleton calls call =>
        rw [List.getLast?_concat] at clientless
        exact (warm_run_connected _ calls call).trans (decide_eq_false (not_lt.mpr (clientless call rfl)))
  · intro sleepMs nowNs floorMs capped
    refine ⟨capSleepMs_le sleepMs floorMs nowNs, le_capSleepMs sleepMs floorMs nowNs, ?_⟩
    intro cut order
    obtain ⟨finite, due⟩ := due_of_capSleepMs_lt cut
    refine (shouldReset_iff_due (nsUntilDue_finite.mp finite).2 order (Nat.le_add_right _ _)).mpr ⟨finite, ?_⟩
    exact Nat.add_le_add_left due nowNs

/-- A clock that steps back between the last call and the sleep: the grace is slept whole, and at its end the stamp is
not that old. -/
theorem cap_sleep_after_step_back : ¬∀ (grace : Fin (2 ^ 64 - 1)) (calls : List WarmGrace.Call) (sleepMs : Int)
    (nowNs : Nat) (floorMs : Int), let w := (WarmGrace.new grace).run calls
    w.capSleepMs sleepMs nowNs floorMs < sleepMs →
      (w.shouldReset ⟨0, nowNs + (w.capSleepMs sleepMs nowNs floorMs).toNat * 1000000, false⟩).1 = true := by
  intro claimed
  -- A minute's grace; a client at 100 s, gone at 101 s; the clock is then at 50 s.
  have early := claimed ⟨60000000000, by decide⟩ [⟨1, 100000000000, false⟩, ⟨0, 101000000000, false⟩] 300000
    50000000000 250 (by decide)
  exact absurd early (by decide)

end Budyk.Proof
