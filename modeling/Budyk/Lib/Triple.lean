import Mathlib.Logic.Basic

/-! Pre- and postconditions of a computation that keeps a state and may fail: what holds when it returns, and what when
it raises. -/

namespace Budyk.Lib

variable {σ δ α β : Type}

def Concludes (Q : α → σ → Prop) (E : δ → σ → Prop) : EStateM.Result δ σ α → Prop
  | .ok a s => Q a s
  | .error d s => E d s

def Triple (P : σ → Prop) (x : EStateM δ σ α) (Q : α → σ → Prop) (E : δ → σ → Prop) : Prop :=
  ∀ s, P s → Concludes Q E (x s)

variable {P : σ → Prop} {Q : α → σ → Prop} {R : β → σ → Prop} {E : δ → σ → Prop}

theorem Concludes.imp {Q' : α → σ → Prop} {E' : δ → σ → Prop} {r : EStateM.Result δ σ α} (ends : Concludes Q E r)
    (returned : ∀ a s, Q a s → Q' a s) (raised : ∀ d s, E d s → E' d s) : Concludes Q' E' r := by
  cases r with
  | ok a s => exact returned a s ends
  | error d s => exact raised d s ends

theorem Concludes.left {Q' : α → σ → Prop} {E' : δ → σ → Prop} {r : EStateM.Result δ σ α}
    (both : Concludes (fun a s => Q a s ∧ Q' a s) (fun d s => E d s ∧ E' d s) r) : Concludes Q E r :=
  both.imp (fun _ _ holds => holds.1) fun _ _ raised => raised.1

def resultOf : EStateM.Result δ σ α → Except δ α × σ
  | .ok a s => (.ok a, s)
  | .error d s => (.error d, s)

theorem concludes_ok {a : α} {s : σ} : Concludes Q E (.ok a s) ↔ Q a s := Iff.rfl

theorem concludes_error {d : δ} {s : σ} : Concludes Q E (.error d s : EStateM.Result δ σ α) ↔ E d s := Iff.rfl

theorem exists_ok {r : EStateM.Result δ σ α} {a : α} {holds : σ → Prop} (returned : (resultOf r).1 = .ok a)
    (left : holds (resultOf r).2) : ∃ s, r = .ok a s ∧ holds s := by
  cases r with
  | ok b s =>
      cases returned
      exact ⟨s, rfl, left⟩
  | error d s => cases returned

theorem exists_error {r : EStateM.Result δ σ α} {d : δ} {holds : σ → Prop} (raised : (resultOf r).1 = .error d)
    (left : holds (resultOf r).2) : ∃ s, r = .error d s ∧ holds s := by
  cases r with
  | ok a s => cases raised
  | error e s =>
      cases raised
      exact ⟨s, rfl, left⟩

namespace Triple
variable {x : EStateM δ σ α} {k : α → EStateM δ σ β}

theorem returns {a : α} (holds : ∀ s, P s → Q a s) : Triple P (pure a : EStateM δ σ α) Q E := holds

theorem raises {d : δ} (holds : ∀ s, P s → E d s) : Triple P (throw d : EStateM δ σ α) Q E := holds

theorem bind (hx : Triple P x Q E) (hk : ∀ a, Triple (Q a) (k a) R E) : Triple P (x >>= k) R E := by
  intro s holds
  have first := hx s holds
  change Concludes R E (EStateM.bind x k s)
  rw [EStateM.bind]
  cases result : x s with
  | error d s' =>
      rw [result] at first
      exact first
  | ok a s' =>
      rw [result] at first
      exact hk a s' first

theorem get {k : σ → EStateM δ σ β} (hk : ∀ s, P s → Concludes R E (k s s)) : Triple P (MonadState.get >>= k) R E :=
  fun s holds => hk s holds

theorem modify {f : σ → σ} {Q : Unit → σ → Prop} (holds : ∀ s, P s → Q () (f s)) :
    Triple P (modify f : EStateM δ σ Unit) Q E := holds

theorem ite {c : Prop} [Decidable c] {y z : EStateM δ σ α} (yes : c → Triple P y Q E) (no : ¬c → Triple P z Q E) :
    Triple P (if c then y else z) Q E := by
  split
  · exact yes ‹_›
  · exact no ‹_›

end Triple

end Budyk.Lib
