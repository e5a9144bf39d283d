import Mathlib.Data.List.Basic

/-! A search that tries its ways in order, and on failure has undone what it did: it finds the first of the ways,
or the error it meets before.

The search runs on a state that shows a `view`. An error is a fault of the search, or ends it from outside. -/

namespace Budyk.Lib

variable {σ γ ε δ α β : Type}

section
variable (view : σ → γ) (fault : δ → Option ε)

/-- The outcome is the first of `ways`; if there is none, the view is `start` again. -/
def Tried (start : γ) (ways : List (Except ε (α × γ))) : EStateM.Result δ σ (Option α) → Prop
  | .ok (some a) s => ways.head? = some (.ok (a, view s))
  | .ok none s => ways = [] ∧ view s = start
  | .error d _ => ∀ e, fault d = some e → ways.head? = some (.error e)

/-- From every state. -/
def Tries (x : EStateM δ σ (Option α)) (ways : γ → List (Except ε (α × γ))) : Prop :=
  ∀ s, Tried view fault (view s) (ways (view s)) (x s)

def Answered (start : γ) (answer : β) : EStateM.Result δ σ β → Prop
  | .ok b s => b = answer ∧ view s = start
  | .error d _ => fault d = none

/-- Always answers the same, and leaves the view. -/
def Answers (x : EStateM δ σ β) (answer : β) : Prop := ∀ s, Answered view fault (view s) answer (x s)

end

variable {view : σ → γ} {fault : δ → Option ε} {x : EStateM δ σ (Option α)} {k : Option α → EStateM δ σ (Option α)}

/-- What is found stays found, and where nothing is the search goes on. -/
theorem Tried.orElse {start : γ} {ways later : List (Except ε (α × γ))} {s : σ}
    (tried : Tried view fault start ways (x s)) (found : ∀ a, k (some a) = pure (some a))
    (next : ∀ s', view s' = start → Tried view fault start later (k none s')) :
    Tried view fault start (ways ++ later) ((x >>= k) s) := by
  change Tried view fault start (ways ++ later) (EStateM.bind x k s)
  rw [EStateM.bind]
  cases result : x s with
  | error d s' =>
      rw [result] at tried
      intro e fatal
      rw [List.head?_append, tried e fatal]
      rfl
  | ok answer s' =>
      rw [result] at tried
      cases answer with
      | some a =>
          change Tried view fault start (ways ++ later) (k (some a) s')
          rw [found]
          change (ways ++ later).head? = _
          rw [List.head?_append, show ways.head? = _ from tried]
          rfl
      | none =>
          obtain ⟨nothing, same⟩ := tried
          rw [nothing]
          exact next s' same

theorem Tries.orElse {first second : γ → List (Except ε (α × γ))} (hx : Tries view fault x first)
    (found : ∀ a, k (some a) = pure (some a)) (hk : Tries view fault (k none) second) :
    Tries view fault (x >>= k) fun c => first c ++ second c := by
  intro s
  apply (hx s).orElse found
  intro s' same
  rw [← same]
  exact hk s'

theorem tries_none : Tries view fault (pure none : EStateM δ σ (Option α)) fun _ => [] := fun _ => ⟨rfl, rfl⟩

theorem tries_some (a : α) : Tries view fault (pure (some a)) fun c => [.ok (a, c)] := fun _ => rfl

theorem tries_fault {d : δ} {e : ε} (fatal : fault d = some e) (later : γ → List (Except ε (α × γ))) :
    Tries view fault (throw d) fun c => .error e :: later c := by
  intro s e' same
  rw [fatal] at same
  rw [← Option.some.inj same]
  rfl

theorem tries_ended {d : δ} (outside : fault d = none) (ways : γ → List (Except ε (α × γ))) :
    Tries view fault (throw d) ways := by
  intro s e same
  rw [outside] at same
  cases same

theorem Answered.then {z : EStateM δ σ β} {k : β → EStateM δ σ (Option α)} {b : β} {start : γ}
    {ways : List (Except ε (α × γ))} {s : σ} (answered : Answered view fault start b (z s))
    (next : ∀ s', view s' = start → Tried view fault start ways (k b s')) :
    Tried view fault start ways ((z >>= k) s) := by
  change Tried view fault start ways (EStateM.bind z k s)
  rw [EStateM.bind]
  cases result : z s with
  | error d s' =>
      rw [result] at answered
      intro e same
      rw [show fault d = none from answered] at same
      cases same
  | ok b' s' =>
      rw [result] at answered
      obtain ⟨rfl, same⟩ := answered
      exact next s' same

section Answers
variable {τ : Type} {z : EStateM δ σ β} {b : β}

theorem Answers.then {k : β → EStateM δ σ (Option α)} {ways : γ → List (Except ε (α × γ))}
    (hz : Answers view fault z b) (hk : Tries view fault (k b) ways) : Tries view fault (z >>= k) ways := by
  intro s
  apply (hz s).then
  intro s' same
  rw [← same]
  exact hk s'

theorem answers_pure : Answers view fault (pure b) b := fun _ => ⟨rfl, rfl⟩

theorem Answers.bind {k : β → EStateM δ σ τ} {d : τ} (hz : Answers view fault z b) (hk : Answers view fault (k b) d) :
    Answers view fault (z >>= k) d := by
  intro s
  change Answered view fault (view s) d (EStateM.bind z k s)
  have answered := hz s
  rw [EStateM.bind]
  cases result : z s with
  | error d s' =>
      rw [result] at answered
      exact answered
  | ok b' s' =>
      rw [result] at answered
      obtain ⟨rfl, same⟩ := answered
      rw [← same]
      exact hk s'

end Answers

theorem tries_congr {ways other : γ → List (Except ε (α × γ))} (hx : Tries view fault x ways)
    (same : ∀ c, ways c = other c) : Tries view fault x other := funext same ▸ hx

/-- A way that changes the view for what follows, and changes it back. -/
theorem Tried.within (enter leave : σ → σ) {s : σ} {ways : List (Except ε (α × γ))}
    (inner : Tried view fault (view (enter s)) ways (x (enter s))) (found : ∀ a, k (some a) = pure (some a))
    (nothing : k none = do modify leave; pure none)
    (undone : ∀ s', view s' = view (enter s) → view (leave s') = view s) :
    Tried view fault (view s) ways ((do modify enter; x >>= k : EStateM δ σ (Option α)) s) := by
  change Tried view fault (view s) ways (EStateM.bind x k (enter s))
  rw [EStateM.bind]
  cases result : x (enter s) with
  | error d s' =>
      rw [result] at inner
      exact inner
  | ok answer s' =>
      rw [result] at inner
      cases answer with
      | some a =>
          change Tried view fault (view s) ways (k (some a) s')
          rw [found]
          exact inner
      | none =>
          change Tried view fault (view s) ways (k none s')
          rw [nothing]
          exact ⟨inner.1, undone s' inner.2⟩

theorem bind_at {z z' : EStateM δ σ β} {τ : Type} {s : σ} (same : z s = z' s) (k : β → EStateM δ σ τ) :
    (z >>= k) s = (z' >>= k) s := by
  change EStateM.bind z k s = EStateM.bind z' k s
  rw [EStateM.bind, EStateM.bind, same]

theorem get_bind (f : σ → EStateM δ σ β) (s : σ) : (get >>= f) s = f s s := rfl

/-! ## Ways one after the other -/

/-- Each way goes on into the ways after it; an error stays. -/
def andThen (ways : List (Except ε (α × γ))) (next : α → γ → List (Except ε (β × γ))) : List (Except ε (β × γ)) :=
  ways.flatMap fun
    | .ok (a, c) => next a c
    | .error e => [.error e]

section
variable (next : α → γ → List (Except ε (β × γ)))

@[simp] theorem andThen_nil : andThen [] next = [] := rfl

@[simp] theorem andThen_ok (a : α) (c : γ) (ways : List (Except ε (α × γ))) :
    andThen (.ok (a, c) :: ways) next = next a c ++ andThen ways next := rfl

@[simp] theorem andThen_error (e : ε) (ways : List (Except ε (α × γ))) :
    andThen (.error e :: ways) next = .error e :: andThen ways next := rfl

theorem andThen_map {τ : Type} (xs : List τ) (f : τ → α) (c : γ) :
    andThen (ε := ε) (xs.map fun x => .ok (f x, c)) next = xs.flatMap fun x => next (f x) c := by
  rw [andThen, List.flatMap_map]

theorem ok_mem_andThen {ways : List (Except ε (α × γ))} {b : β} {c' : γ} :
    .ok (b, c') ∈ andThen ways next ↔ ∃ a c, .ok (a, c) ∈ ways ∧ .ok (b, c') ∈ next a c := by
  simp only [andThen, List.mem_flatMap]
  constructor
  · rintro ⟨way, held, found⟩
    cases way with
    | ok pair => exact ⟨pair.1, pair.2, held, found⟩
    | error e => exact absurd (List.mem_singleton.mp found) (by simp)
  · rintro ⟨a, c, held, found⟩
    exact ⟨.ok (a, c), held, found⟩

end

end Budyk.Lib
