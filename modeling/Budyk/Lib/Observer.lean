import Mathlib.Logic.Relation

/-! Programs that observe a state others change. Between two questions of the program the
environment may move any number of times; an execution is one such interleaving. -/

namespace Budyk.Lib

inductive Observer (Op : Type) (Ans : Op → Type) (α : Type) where
  | done (a : α)
  | ask (op : Op) (next : Ans op → Observer Op Ans α)

namespace Observer
variable {Op : Type} {Ans : Op → Type} {α β σ : Type}

def bind : Observer Op Ans α → (α → Observer Op Ans β) → Observer Op Ans β
  | .done a, f => f a
  | .ask op next, f => .ask op fun answer => (next answer).bind f

instance : Monad (Observer Op Ans) where
  pure := .done
  bind := bind

def query (op : Op) : Observer Op Ans (Ans op) := .ask op .done

def run (answer : (op : Op) → Ans op) : Observer Op Ans α → α
  | .done a => a
  | .ask op next => (next (answer op)).run answer

@[simp] theorem run_pure (answer : (op : Op) → Ans op) (a : α) :
    run answer (pure a : Observer Op Ans α) = a := rfl

@[simp] theorem run_query (answer : (op : Op) → Ans op) (op : Op) :
    run answer (query op) = answer op := rfl

@[simp] theorem run_bind (answer : (op : Op) → Ans op) (p : Observer Op Ans α)
    (f : α → Observer Op Ans β) : run answer (p >>= f) = run answer (f (run answer p)) := by
  change run answer (p.bind f) = _
  induction p with
  | done a => rfl
  | ask op next ih => exact ih (answer op)

/-! ## Questions -/

/-- The questions of a run at rest, in order. -/
def asked (answer : (op : Op) → Ans op) : Observer Op Ans α → List Op
  | .done _ => []
  | .ask op next => op :: (next (answer op)).asked answer

@[simp] theorem asked_pure (answer : (op : Op) → Ans op) (a : α) :
    asked answer (pure a : Observer Op Ans α) = [] := rfl

@[simp] theorem asked_query (answer : (op : Op) → Ans op) (op : Op) : asked answer (query op) = [op] := rfl

@[simp] theorem asked_bind (answer : (op : Op) → Ans op) (p : Observer Op Ans α) (f : α → Observer Op Ans β) :
    asked answer (p >>= f) = asked answer p ++ asked answer (f (run answer p)) := by
  change asked answer (p.bind f) = _
  induction p with
  | done a => rfl
  | ask op next ih => exact congrArg (op :: ·) (ih (answer op))

/-- Whatever it is answered, the program is done after `n` questions. -/
def EndsWithin : Nat → Observer Op Ans α → Prop
  | _, .done _ => True
  | 0, .ask _ _ => False
  | n + 1, .ask _ next => ∀ a, (next a).EndsWithin n

theorem endsWithin_pure (n : Nat) (a : α) : (pure a : Observer Op Ans α).EndsWithin n := by
  cases n <;> trivial

theorem endsWithin_query (n : Nat) (op : Op) : (query op : Observer Op Ans (Ans op)).EndsWithin (n + 1) :=
  endsWithin_pure n

theorem EndsWithin.mono {p : Observer Op Ans α} {n m : Nat} (ends : p.EndsWithin n) (le : n ≤ m) : p.EndsWithin m := by
  induction p generalizing n m with
  | done a => exact endsWithin_pure m a
  | ask op next ih =>
      cases n with
      | zero => exact ends.elim
      | succ n =>
          cases m with
          | zero => omega
          | succ m => exact fun a => ih a (ends a) (by omega)

theorem EndsWithin.bind {p : Observer Op Ans α} {f : α → Observer Op Ans β} {n m : Nat} (first : p.EndsWithin n)
    (second : ∀ a, (f a).EndsWithin m) : (p >>= f).EndsWithin (n + m) := by
  change (p.bind f).EndsWithin (n + m)
  induction p generalizing n with
  | done a => exact (second a).mono (by omega)
  | ask op next ih =>
      cases n with
      | zero => exact first.elim
      | succ n =>
          rw [Nat.succ_add]
          exact fun a => ih a (first a)

/-! ## Interleavings -/

section Exec
variable (answer : σ → (op : Op) → Ans op) (env : σ → σ → Prop) (guard : σ → Op → Prop)

/-- `Exec p s a t`: an interleaving of the program's questions with moves of the environment takes
the state from `s` to `t` and the program to the value `a`, every question asked in a state that
its guard allows. -/
inductive Exec : Observer Op Ans α → σ → α → σ → Prop where
  | done (a : α) (s : σ) : Exec (.done a) s a s
  | env {p : Observer Op Ans α} {s s' t : σ} {a : α} (move : env s s') (rest : Exec p s' a t) :
      Exec p s a t
  | ask {op : Op} {next : Ans op → Observer Op Ans α} {s t : σ} {a : α} (allowed : guard s op)
      (rest : Exec (next (answer s op)) s a t) : Exec (.ask op next) s a t

end Exec

variable {answer : σ → (op : Op) → Ans op} {env : σ → σ → Prop} {guard : σ → Op → Prop}

theorem Exec.moves {p : Observer Op Ans α} {s t : σ} {a : α} (exec : Exec answer env guard p s a t) :
    Relation.ReflTransGen env s t := by
  induction exec with
  | done a s => exact .refl
  | env move _ ih => exact .head move ih
  | ask _ _ ih => exact ih

theorem exec_pure {a b : α} {s t : σ}
    (exec : Exec answer env guard (pure a : Observer Op Ans α) s b t) : b = a := by
  generalize whole : (pure a : Observer Op Ans α) = q at exec
  induction exec with
  | done b s => cases whole; rfl
  | env _ _ ih => exact ih whole
  | ask _ _ _ => cases whole

theorem exec_query {op : Op} {s t : σ} {a : Ans op}
    (exec : Exec answer env guard (query op) s a t) :
    ∃ u, Relation.ReflTransGen env s u ∧ Relation.ReflTransGen env u t ∧ guard u op ∧
      a = answer u op := by
  generalize whole : query op = q at exec
  induction exec with
  | done b s => cases whole
  | env move _ ih =>
      obtain ⟨u, before, after, allowed, value⟩ := ih whole
      exact ⟨u, .head move before, after, allowed, value⟩
  | ask allowed rest ih =>
      cases whole
      exact ⟨_, .refl, rest.moves, allowed, exec_pure rest⟩

theorem exec_bind {p : Observer Op Ans α} {f : α → Observer Op Ans β} {s t : σ} {b : β}
    (exec : Exec answer env guard (p >>= f) s b t) :
    ∃ a u, Exec answer env guard p s a u ∧ Exec answer env guard (f a) u b t := by
  change Exec answer env guard (p.bind f) s b t at exec
  generalize whole : p.bind f = q at exec
  induction exec generalizing p with
  | done b s =>
      cases p with
      | done a => exact ⟨a, s, .done a s, by rw [show f a = .done b from whole]; exact .done b s⟩
      | ask op next => cases whole
  | env move _ ih =>
      obtain ⟨a, u, first, second⟩ := ih whole
      exact ⟨a, u, .env move first, second⟩
  | @ask op next s t b allowed rest ih =>
      cases p with
      | done a =>
          refine ⟨a, s, .done a s, ?_⟩
          rw [show f a = .ask op next from whole]
          exact .ask allowed rest
      | ask op' next' =>
          injection whole with same tail
          subst same
          obtain ⟨a, u, first, second⟩ := ih (congrFun (eq_of_heq tail) (answer s op'))
          exact ⟨a, u, .ask allowed first, second⟩

/-! ## Building interleavings -/

theorem Exec.after {p : Observer Op Ans α} {s s' t : σ} {a : α} (moves : Relation.ReflTransGen env s s')
    (exec : Exec answer env guard p s' a t) : Exec answer env guard p s a t := by
  induction moves using Relation.ReflTransGen.head_induction_on with
  | refl => exact exec
  | head move _ ih => exact .env move ih

theorem Exec.before {p : Observer Op Ans α} {s s' t : σ} {a : α} (exec : Exec answer env guard p s a s')
    (moves : Relation.ReflTransGen env s' t) : Exec answer env guard p s a t := by
  induction exec with
  | done a s => exact .after moves (.done a t)
  | env move _ ih => exact .env move (ih moves)
  | ask allowed _ ih => exact .ask allowed (ih moves)

theorem Exec.bind {p : Observer Op Ans α} {f : α → Observer Op Ans β} {s u t : σ} {a : α} {b : β}
    (first : Exec answer env guard p s a u) (second : Exec answer env guard (f a) u b t) :
    Exec answer env guard (p >>= f) s b t := by
  induction first with
  | done a s => exact second
  | env move _ ih => exact .env move (ih second)
  | ask allowed _ ih => exact .ask allowed (ih second)

theorem Exec.run (p : Observer Op Ans α) {s : σ} (allowed : ∀ op, guard s op) :
    Exec answer env guard p s (p.run (answer s)) s := by
  induction p with
  | done a => exact .done a s
  | ask op next ih => exact .ask (allowed op) (ih (answer s op))

end Observer

end Budyk.Lib
