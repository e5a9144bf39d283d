import Budyk.Lib.Along

/-! Counting by fixed windows: a window opens with an event that finds none, and closes `width` later. -/

namespace Budyk.Lib.FixedWindow
variable {width most : Nat} {window times : List Nat} {now start : Nat}

/-- The window at `now` has closed, or there is none. -/
def Closed (width : Nat) (window : List Nat) (now : Nat) : Prop := ∀ start ∈ window.head?, start + width ≤ now

instance (width : Nat) (window : List Nat) (now : Nat) : Decidable (Closed width window now) :=
  inferInstanceAs (Decidable (∀ start ∈ window.head?, start + width ≤ now))

def add (width : Nat) (window : List Nat) (now : Nat) : List Nat :=
  if Closed width window now then [now] else window ++ [now]

theorem closed_nil : Closed width [] now := by
  intro start held
  cases held

theorem closed_cons : Closed width (start :: window) now ↔ start + width ≤ now := by
  simp [Closed]

theorem Closed.later {later : Nat} (closed : Closed width window now) (after : now ≤ later) : Closed width window later :=
  fun start held => Nat.le_trans (closed start held) after

theorem add_cons : add width (start :: window) now =
    if start + width ≤ now then [now] else start :: (window ++ [now]) := by
  simp only [add, closed_cons, List.cons_append]

theorem add_ne_nil : add width window now ≠ [] := by
  unfold add
  split <;> simp

def within (width from_ : Nat) (times : List Nat) : List Nat := times.filter fun t => from_ ≤ t ∧ t < from_ + width

theorem within_cons {from_ : Nat} : (within width from_ (now :: times)).length =
    (if from_ ≤ now ∧ now < from_ + width then 1 else 0) + (within width from_ times).length := by
  unfold within
  rw [List.filter_cons]
  split
  next inside => rw [List.length_cons, if_pos (of_decide_eq_true inside), Nat.add_comm]
  next outside => rw [if_neg fun inside => outside (decide_eq_true inside), Nat.zero_add]

theorem within_late {from_ : Nat} (late : ∀ t ∈ times, from_ + width ≤ t) : within width from_ times = [] := by
  rw [within, List.filter_eq_nil_iff]
  intro t held inside
  have := (of_decide_eq_true inside).2
  have := late t held
  omega

/-- No window of the run gets longer than `most`. -/
def Bounded (width most : Nat) : List Nat → List Nat → Prop :=
  Along (add width) fun window now => (add width window now).length ≤ most

/-- What is still to come, by where the interval starts and how full the window is that is open at first. -/
theorem within_open (from_ : Nat) (times : List Nat) (window : List Nat) (start : Nat)
    (bounded : Bounded width most (start :: window) times) (held : (start :: window).length ≤ most)
    (sorted : (start :: times).Pairwise (· ≤ ·)) :
    (within width from_ times).length ≤
      if from_ ≤ start then most - (start :: window).length
      else if from_ < start + width then 2 * most - (start :: window).length else 2 * most - 1 := by
  induction times generalizing start window with
  | nil => exact Nat.zero_le _
  | cons now rest ih =>
      obtain ⟨fits, further⟩ := bounded
      rw [List.pairwise_cons] at sorted
      obtain ⟨first, rest_sorted⟩ := sorted
      have since := first now List.mem_cons_self
      rw [add_cons] at fits further
      rw [within_cons]
      by_cases ended : start + width ≤ now
      · rw [if_pos ended] at fits further
        have later := ih [] now further fits rest_sorted
        rw [List.length_cons] at held
        by_cases early : from_ ≤ start
        · have none : within width from_ rest = [] := by
            apply within_late
            intro t among
            have := List.rel_of_pairwise_cons rest_sorted among
            omega
          rw [if_pos early, none, if_neg (by omega)]
          exact Nat.zero_le _
        · rw [List.length_singleton] at later
          rw [List.length_cons]
          split_ifs at later ⊢ <;> omega
      · rw [if_neg ended] at fits further
        have rest_from : (start :: rest).Pairwise (· ≤ ·) :=
          List.pairwise_cons.mpr ⟨fun t among => first t (List.mem_cons_of_mem _ among), rest_sorted.of_cons⟩
        have later := ih (window ++ [now]) start further fits rest_from
        have size : (start :: (window ++ [now])).length = (start :: window).length + 1 := by simp
        rw [size] at fits later
        have present : 0 < (start :: window).length := Nat.succ_pos _
        split_ifs at later ⊢ <;> omega

theorem within_le (times : List Nat) (window : List Nat) (bounded : Bounded width most window times)
    (held : window.length ≤ most) (sorted : (window.head?.toList ++ times).Pairwise (· ≤ ·)) (present : 0 < most)
    (from_ : Nat) : (within width from_ times).length ≤ 2 * most - 1 := by
  cases window with
  | cons start window =>
      have bound := within_open from_ times window start bounded held sorted
      have size : 0 < (start :: window).length := Nat.succ_pos _
      apply Nat.le_trans bound
      split_ifs <;> omega
  | nil =>
      cases times with
      | nil => exact Nat.zero_le _
      | cons now rest =>
          have later := within_open from_ rest [] now bounded.2 bounded.1 sorted
          rw [List.length_singleton] at later
          rw [within_cons]
          apply Nat.le_trans (Nat.add_le_add_left later _)
          split_ifs <;> omega

end Budyk.Lib.FixedWindow
