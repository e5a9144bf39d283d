import Mathlib.Data.List.Basic

/-! Tumbling windows over a stream of stamped items: a window takes items until one falls outside
its width, counted from its first item, or until it is cut. -/

namespace Budyk.Lib

structure Tumbling (α : Type) where
  closed : List (List α)
  pending : List α

namespace Tumbling
variable {α : Type} (ts : α → Nat) (width : Nat)

def empty : Tumbling α := ⟨[], []⟩

def Outside : List α → α → Prop
  | [], _ => False
  | first :: _, x => ts x < ts first ∨ ts x - ts first ≥ width

instance : (window : List α) → (x : α) → Decidable (Outside ts width window x)
  | [], _ => inferInstanceAs (Decidable False)
  | first :: _, x => inferInstanceAs (Decidable (ts x < ts first ∨ ts x - ts first ≥ width))

def cut (t : Tumbling α) : Tumbling α :=
  match t.pending with
  | [] => t
  | first :: rest => ⟨t.closed ++ [first :: rest], []⟩

def push (t : Tumbling α) (x : α) : Tumbling α := { t with pending := t.pending ++ [x] }

def all (t : Tumbling α) : List α := t.closed.flatten ++ t.pending

/-- A window's items are less than a width after its first, and none before it. -/
def Fits : List α → Prop
  | [] => True
  | first :: rest => ∀ x ∈ first :: rest, ts first ≤ ts x ∧ ts x < ts first + width

variable {ts width} {t : Tumbling α} {x : α}

theorem cut_of_nil (none : t.pending = []) : t.cut = t := by
  rw [cut, none]

theorem cut_of_ne_nil (some : t.pending ≠ []) : t.cut = ⟨t.closed ++ [t.pending], []⟩ := by
  cases pending : t.pending with
  | nil => exact absurd pending some
  | cons first rest => rw [cut, pending]

@[simp] theorem cut_pending : t.cut.pending = [] := by
  cases pending : t.pending with
  | nil => rw [cut_of_nil pending, pending]
  | cons first rest => rw [cut, pending]

@[simp] theorem cut_all : t.cut.all = t.all := by
  cases pending : t.pending with
  | nil => rw [cut_of_nil pending]
  | cons first rest => simp [cut, all, pending]

@[simp] theorem push_all : (t.push x).all = t.all ++ [x] := by
  simp [push, all]

theorem not_outside_of_nil (none : t.pending = []) : ¬Outside ts width t.pending x := by
  rw [none]
  exact id

theorem Fits.append {window : List α} (fits : Fits ts width window) (positive : 0 < width)
    (inside : ¬Outside ts width window x) : Fits ts width (window ++ [x]) := by
  cases window with
  | nil =>
      simp only [List.nil_append, Fits, List.mem_singleton, forall_eq]
      omega
  | cons first rest =>
      simp only [Outside, not_or, Nat.not_lt, ge_iff_le, Nat.not_le] at inside
      intro y member
      rcases List.mem_append.mp (show y ∈ (first :: rest) ++ [x] from member) with old | new
      · exact fits y old
      · rw [List.mem_singleton.mp new]
        omega

end Tumbling

end Budyk.Lib
