import Mathlib.Data.List.Basic

/-! Reading a stream item by item as its pieces arrive. -/

namespace Budyk.Lib

inductive Reading (σ α β ε : Type) where
  | wait (state : σ) (rest : List α)
  | stop (reason : ε)
  | item (item : β) (state : σ) (rest : List α)

inductive Ending (σ α ε : Type) where
  | waiting (state : σ) (rest : List α)
  | stopped (reason : ε)

/-- What is read of a stream does not depend on what comes after it. -/
structure Reader (σ α β ε : Type) where
  next : σ → List α → Reading σ α β ε
  shrinks : ∀ {s xs b s' rest}, next s xs = .item b s' rest → rest.length < xs.length
  item_append : ∀ {s xs b s' rest} (ys), next s xs = .item b s' rest → next s (xs ++ ys) = .item b s' (rest ++ ys)
  stop_append : ∀ {s xs e} (ys), next s xs = .stop e → next s (xs ++ ys) = .stop e
  wait_append : ∀ {s xs s' rest} (ys), next s xs = .wait s' rest → next s (xs ++ ys) = next s' (rest ++ ys)

namespace Reader
variable {σ α β ε : Type} (r : Reader σ α β ε)

def read (s : σ) (xs : List α) : List β × Ending σ α ε :=
  match step : r.next s xs with
  | .wait s' rest => ([], .waiting s' rest)
  | .stop e => ([], .stopped e)
  | .item b s' rest =>
      have := r.shrinks step
      (b :: (read s' rest).1, (read s' rest).2)
termination_by xs.length

def resume (before : List β × Ending σ α ε) (ys : List α) : List β × Ending σ α ε :=
  match before.2 with
  | .waiting s rest => (before.1 ++ (r.read s (rest ++ ys)).1, (r.read s (rest ++ ys)).2)
  | .stopped _ => before

variable {r}

theorem read_wait {s s' : σ} {xs rest : List α} (step : r.next s xs = .wait s' rest) :
    r.read s xs = ([], .waiting s' rest) := by
  rw [read]
  split <;> simp_all

theorem read_stop {s : σ} {xs : List α} {e : ε} (step : r.next s xs = .stop e) :
    r.read s xs = ([], .stopped e) := by
  rw [read]
  split <;> simp_all

theorem read_item {s s' : σ} {xs rest : List α} {b : β} (step : r.next s xs = .item b s' rest) :
    r.read s xs = (b :: (r.read s' rest).1, (r.read s' rest).2) := by
  rw [read]
  split <;> simp_all

theorem read_induction {P : σ → List α → Prop} (wait : ∀ s xs s' rest, r.next s xs = .wait s' rest → P s xs)
    (stop : ∀ s xs e, r.next s xs = .stop e → P s xs)
    (item : ∀ s xs b s' rest, r.next s xs = .item b s' rest → P s' rest → P s xs) (s : σ) (xs : List α) :
    P s xs := by
  induction length : xs.length using Nat.strongRecOn generalizing s xs with
  | _ n ih =>
      subst length
      cases step : r.next s xs with
      | wait s' rest => exact wait s xs s' rest step
      | stop e => exact stop s xs e step
      | item b s' rest => exact item s xs b s' rest step (ih _ (r.shrinks step) s' rest rfl)

theorem read_congr {s s' : σ} {xs ys : List α} (same : r.next s xs = r.next s' ys) :
    r.read s xs = r.read s' ys := by
  cases step : r.next s' ys with
  | wait t rest => rw [read_wait step, read_wait (same.trans step)]
  | stop e => rw [read_stop step, read_stop (same.trans step)]
  | item b t rest => rw [read_item step, read_item (same.trans step)]

theorem read_append (s : σ) (xs ys : List α) : r.read s (xs ++ ys) = r.resume (r.read s xs) ys := by
  induction s, xs using r.read_induction with
  | wait s xs s' rest step =>
      rw [read_wait step, resume, read_congr (r.wait_append ys step)]
      rfl
  | stop s xs e step => rw [read_stop step, read_stop (r.stop_append ys step), resume]
  | item s xs b s' rest step ih =>
      rw [read_item step, read_item (r.item_append ys step), ih]
      obtain ⟨items, ending⟩ := r.read s' rest
      cases ending <;> rfl

end Reader

end Budyk.Lib
