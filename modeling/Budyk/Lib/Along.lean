import Mathlib.Data.List.Induction

/-! Runs of a deterministic machine: what every step of a run meets, and two runs side by side. -/

namespace Budyk.Lib
variable {σ ε ω : Type}

/-- Every step of the run is taken from a state, and on an input, with the property. -/
def Along (step : σ → ε → σ) (P : σ → ε → Prop) : σ → List ε → Prop
  | _, [] => True
  | s, e :: rest => P s e ∧ Along step P (step s e) rest

def reports (step : σ → ε → σ) (report : σ → ε → List ω) : σ → List ε → List ω
  | _, [] => []
  | s, e :: rest => report s e ++ reports step report (step s e) rest

section Along
variable {step : σ → ε → σ} {P Q : σ → ε → Prop}

theorem Along.imp {s : σ} {events : List ε} (along : Along step P s events) (imp : ∀ s e, P s e → Q s e) :
    Along step Q s events := by
  induction events generalizing s with
  | nil => trivial
  | cons e rest ih => exact ⟨imp s e along.1, ih along.2⟩

theorem along_congr {s : σ} {events : List ε} (same : ∀ s e, P s e ↔ Q s e) :
    Along step P s events ↔ Along step Q s events :=
  ⟨fun along => along.imp fun s e => (same s e).mp, fun along => along.imp fun s e => (same s e).mpr⟩

theorem along_true (s : σ) (events : List ε) : Along step (fun _ _ => True) s events := by
  induction events generalizing s with
  | nil => trivial
  | cons e rest ih => exact ⟨trivial, ih _⟩

theorem along_append {s : σ} {first second : List ε} :
    Along step P s (first ++ second) ↔ Along step P s first ∧ Along step P (first.foldl step s) second := by
  induction first generalizing s with
  | nil => simp [Along]
  | cons e rest ih => simp only [List.cons_append, Along, ih, List.foldl_cons, and_assoc]

theorem along_concat {s : σ} {events : List ε} {e : ε} :
    Along step P s (events ++ [e]) ↔ Along step P s events ∧ P (events.foldl step s) e := by
  rw [along_append]
  simp [Along]

theorem Along.and {s : σ} {events : List ε} (first : Along step P s events) (second : Along step Q s events) :
    Along step (fun s e => P s e ∧ Q s e) s events := by
  induction events generalizing s with
  | nil => trivial
  | cons e rest ih => exact ⟨⟨first.1, second.1⟩, ih first.2 second.2⟩

theorem along_of_forall {R : ε → Prop} {s : σ} {events : List ε} (all : ∀ e ∈ events, R e) :
    Along step (fun _ e => R e) s events := by
  induction events generalizing s with
  | nil => trivial
  | cons e rest ih => exact ⟨all e List.mem_cons_self, ih fun other held => all other (List.mem_cons_of_mem e held)⟩

theorem along_reports {report : σ → ε → List ω} {R : ω → Prop} {s : σ} {events : List ε}
    (all : ∀ r ∈ reports step report s events, R r) : Along step (fun s e => ∀ r ∈ report s e, R r) s events := by
  induction events generalizing s with
  | nil => trivial
  | cons e rest ih =>
      rw [reports] at all
      exact ⟨fun r held => all r (List.mem_append_left _ held), ih fun r held => all r (List.mem_append_right _ held)⟩

theorem reports_append (report : σ → ε → List ω) (s : σ) (first second : List ε) :
    reports step report s (first ++ second) =
      reports step report s first ++ reports step report (first.foldl step s) second := by
  induction first generalizing s with
  | nil => rfl
  | cons e rest ih => rw [List.cons_append, reports, reports, ih, List.append_assoc, List.foldl_cons]

/-- What an event of the run began, and none after it has ended. -/
def Since (step : σ → ε → σ) (begins ends : σ → ε → Prop) (s : σ) (events : List ε) : Prop :=
  ∃ before e after, events = before ++ e :: after ∧ begins (before.foldl step s) e ∧
    Along step (fun s e => ¬ends s e) ((before ++ [e]).foldl step s) after

/-- A state that only beginnings bring about and only ends take away, as long as the run keeps to its invariant, is that
of a run with a beginning since. -/
theorem holds_iff_since_of_inv {begins ends : σ → ε → Prop} {Inv Holds : σ → Prop}
    (keeps : ∀ s e, Inv s → Inv (step s e))
    (next : ∀ s e, Inv s → (Holds (step s e) ↔ begins s e ∨ (Holds s ∧ ¬ends s e))) {s : σ} (inv : Inv s)
    (none : ¬Holds s) (events : List ε) :
    Inv (events.foldl step s) ∧ (Holds (events.foldl step s) ↔ Since step begins ends s events) := by
  induction events using List.reverseRecOn with
  | nil =>
      simp only [List.foldl_nil, none, false_iff]
      refine ⟨inv, ?_⟩
      rintro ⟨before, e, after, split, -⟩
      simp at split
  | append_singleton events e ih =>
      rw [List.foldl_append, List.foldl_cons, List.foldl_nil, next _ e ih.1, ih.2]
      refine ⟨keeps _ e ih.1, ?_⟩
      constructor
      · rintro (starts | ⟨⟨before, b, after, rfl, starts, quiet⟩, runs⟩)
        · exact ⟨events, e, [], rfl, starts, trivial⟩
        · refine ⟨before, b, after ++ [e], by simp, starts, ?_⟩
          rw [along_concat]
          refine ⟨quiet, ?_⟩
          rwa [← List.foldl_append, List.append_assoc, List.singleton_append]
      · rintro ⟨before, b, after, split, starts, quiet⟩
        cases after using List.reverseRecOn with
        | nil =>
            obtain ⟨rfl, same⟩ := List.append_inj' split rfl
            cases same
            exact .inl starts
        | append_singleton after last =>
            rw [← List.cons_append, ← List.append_assoc] at split
            obtain ⟨rfl, same⟩ := List.append_inj' split rfl
            cases same
            rw [along_concat, ← List.foldl_append, List.append_assoc, List.singleton_append] at quiet
            exact .inr ⟨⟨before, b, after, rfl, starts, quiet.1⟩, quiet.2⟩

theorem holds_iff_since {begins ends : σ → ε → Prop} {Holds : σ → Prop}
    (next : ∀ s e, Holds (step s e) ↔ begins s e ∨ (Holds s ∧ ¬ends s e)) {s : σ} (none : ¬Holds s) (events : List ε) :
    Holds (events.foldl step s) ↔ Since step begins ends s events := by
  have keeps : ∀ (s : σ) (e : ε), (fun _ : σ => True) s → (fun _ : σ => True) (step s e) := fun _ _ _ => trivial
  exact (holds_iff_since_of_inv keeps (fun s e _ => next s e) trivial none events).2

theorem along_of_inv {Inv : σ → Prop} (keeps : ∀ s e, Inv s → Inv (step s e)) (meets : ∀ s e, Inv s → P s e) {s : σ}
    (inv : Inv s) (events : List ε) : Along step P s events := by
  induction events generalizing s with
  | nil => trivial
  | cons e rest ih => exact ⟨meets s e inv, ih (keeps s e inv)⟩

/-- A loop over items that are all ready, where handling one leaves the others so. -/
theorem foldl_each {Inv : σ → Prop} {Ready : σ → ε → Prop} {items : List ε}
    (each : ∀ s x, Inv s → Ready s x → Inv (step s x) ∧ ∀ y ≠ x, Ready s y → Ready (step s x) y)
    (nodup : items.Nodup) {s : σ} (inv : Inv s) (ready : ∀ x ∈ items, Ready s x) : Inv (items.foldl step s) := by
  induction items generalizing s with
  | nil => exact inv
  | cons x rest ih =>
      obtain ⟨absent, nodup⟩ := List.nodup_cons.mp nodup
      obtain ⟨kept, others⟩ := each s x inv (ready x List.mem_cons_self)
      apply ih nodup kept
      intro y held
      exact others y (ne_of_mem_of_not_mem held absent) (ready y (List.mem_cons_of_mem x held))

end Along

theorem reports_eq {step : σ → ε → σ} {report : σ → ε → List ω} {P Q : σ → ε → Prop} {R : σ → σ → Prop}
    (f : ε → ε) {events : List ε} {s r : σ} (related : R s r) (along : Along step P s events)
    (along' : Along step Q r (events.map f))
    (simulates : ∀ s r e, R s r → P s e → Q r (f e) →
      report r (f e) = report s e ∧ R (step s e) (step r (f e))) :
    reports step report r (events.map f) = reports step report s events := by
  induction events generalizing s r with
  | nil => rfl
  | cons e rest ih =>
      obtain ⟨same, next⟩ := simulates s r e related along.1 along'.1
      rw [List.map_cons, reports, reports, same, ih next along.2 along'.2]

end Budyk.Lib
