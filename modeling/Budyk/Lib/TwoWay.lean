import Mathlib.Data.List.AList

/-! A map and its reverse, kept side by side: every key of the reverse lists the keys mapped to it. -/

namespace Budyk.Lib

section Lookup
variable {α β : Type} [DecidableEq α] {map : AList fun _ : α => β}

theorem mem_lookup_insert {a a' : α} {b b' : β} :
    b' ∈ (map.insert a b).lookup a' ↔ a' = a ∧ b' = b ∨ a' ≠ a ∧ b' ∈ map.lookup a' := by
  by_cases same : a' = a
  · subst same
    simp [AList.lookup_insert, eq_comm]
  · simp [AList.lookup_insert_ne same, same]

theorem mem_lookup_erase {a a' : α} {b' : β} : b' ∈ (map.erase a).lookup a' ↔ a' ≠ a ∧ b' ∈ map.lookup a' := by
  by_cases same : a' = a
  · subst same
    simp [AList.lookup_erase]
  · simp [AList.lookup_erase_ne same, same]

end Lookup

variable {α β : Type} [DecidableEq α] [DecidableEq β] {forward : AList fun _ : α => β}
  {backward : AList fun _ : β => List α}

def listed (backward : AList fun _ : β => List α) (b : β) : List α := (backward.lookup b).getD []

omit [DecidableEq α] in
theorem listed_insert (b b' : β) (keys : List α) :
    listed (backward.insert b keys) b' = if b' = b then keys else listed backward b' := by
  split <;> rename_i same
  · rw [same, listed, AList.lookup_insert, Option.getD_some]
  · rw [listed, AList.lookup_insert_ne same, listed]

omit [DecidableEq α] in
theorem listed_erase (b b' : β) : listed (backward.erase b) b' = if b' = b then [] else listed backward b' := by
  split <;> rename_i same
  · rw [same, listed, AList.lookup_erase, Option.getD_none]
  · rw [listed, AList.lookup_erase_ne same, listed]

/-- The two agree, and the reverse has no empty and no repeated entries. -/
structure TwoWay (forward : AList fun _ : α => β) (backward : AList fun _ : β => List α) : Prop where
  inverse : ∀ a b, b ∈ forward.lookup a ↔ a ∈ listed backward b
  nonempty : ∀ b ∈ backward, listed backward b ≠ []
  nodup : ∀ b, (listed backward b).Nodup

theorem twoWay_empty : TwoWay (∅ : AList fun _ : α => β) ∅ where
  inverse a b := by simp [listed]
  nonempty b held := absurd held (AList.notMem_empty b)
  nodup b := by simp [listed]

section TwoWay
variable (linked : TwoWay forward backward)
include linked

theorem TwoWay.unlisted {a : α} (absent : forward.lookup a = none) (b : β) : a ∉ listed backward b := by
  rw [← linked.inverse, absent]
  exact Option.not_mem_none b

theorem TwoWay.mem_of_mem {a : α} {b : β} (held : b ∈ forward.lookup a) : b ∈ backward := by
  rw [linked.inverse, listed] at held
  rw [← AList.lookup_isSome]
  cases found : backward.lookup b with
  | none => simp [found] at held
  | some keys => rfl

theorem TwoWay.link {a : α} (absent : forward.lookup a = none) (b : β) :
    TwoWay (forward.insert a b) (backward.insert b (listed backward b ++ [a])) where
  inverse a' b' := by
    rw [mem_lookup_insert, listed_insert, linked.inverse]
    have unlisted := linked.unlisted absent
    by_cases key : a' = a <;> by_cases value : b' = b
    all_goals simp [key, value, unlisted]
  nonempty b' held := by
    rw [listed_insert]
    split <;> rename_i same
    · exact List.append_ne_nil_of_right_ne_nil _ (List.cons_ne_nil a [])
    · exact linked.nonempty b' (((AList.mem_insert _).mp held).resolve_left same)
  nodup b' := by
    rw [listed_insert]
    split
    · rw [List.nodup_append]
      refine ⟨linked.nodup b, List.nodup_singleton a, ?_⟩
      rintro x held y last rfl
      rw [List.mem_singleton.mp last] at held
      exact linked.unlisted absent b held
    · exact linked.nodup b'

theorem TwoWay.without {a : α} {b : β} (held : b ∈ forward.lookup a) (a' : α) (b' : β) :
    a' ≠ a ∧ a' ∈ listed backward b' ↔
      a' ∈ if b' = b then (listed backward b).filter (· ≠ a) else listed backward b' := by
  split <;> rename_i value
  · rw [value, List.mem_filter, decide_eq_true_iff, and_comm]
  · rw [and_iff_right_iff_imp]
    rintro listed rfl
    exact value (Option.mem_unique ((linked.inverse a' b').mpr listed) held)

theorem TwoWay.unlink_last {a : α} {b : β} (held : b ∈ forward.lookup a)
    (last : (listed backward b).filter (· ≠ a) = []) : TwoWay (forward.erase a) (backward.erase b) where
  inverse a' b' := by
    rw [mem_lookup_erase, linked.inverse, linked.without held, listed_erase, last]
  nonempty b' kept := by
    obtain ⟨other, held⟩ := AList.mem_erase.mp kept
    rw [listed_erase, if_neg other]
    exact linked.nonempty b' held
  nodup b' := by
    rw [listed_erase]
    split
    · exact List.nodup_nil
    · exact linked.nodup b'

theorem TwoWay.unlink {a : α} {b : β} (held : b ∈ forward.lookup a)
    (more : (listed backward b).filter (· ≠ a) ≠ []) :
    TwoWay (forward.erase a) (backward.insert b ((listed backward b).filter (· ≠ a))) where
  inverse a' b' := by
    rw [mem_lookup_erase, linked.inverse, linked.without held, listed_insert]
  nonempty b' kept := by
    rw [listed_insert]
    split <;> rename_i same
    · exact more
    · exact linked.nonempty b' (((AList.mem_insert _).mp kept).resolve_left same)
  nodup b' := by
    rw [listed_insert]
    split
    · exact (linked.nodup b).filter _
    · exact linked.nodup b'

end TwoWay

end Budyk.Lib
