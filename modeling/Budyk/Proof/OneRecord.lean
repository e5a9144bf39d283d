import Budyk.Proof.Folding

/-! Rings of one record: what a run leaves in them is the last entry of each log. -/

namespace Budyk.Proof
open Lib Storage Spec

structure OneRecord (m : TierManager) (h : History Stored) : Prop where
  ready : m.ready = true
  custom : m.custom = []
  rings : ∀ leaf ∈ [Leaf.tier1, .tier2, .tier3], ∃ r, m.rings leaf = some r ∧ r.capacity = 1 ∧
    ∀ e, (h.log leaf).getLast? = some e → ValidLevel (recordOf e).level →
      ∀ j s, r.Live j s ↔ j + 1 = (h.log leaf).length ∧ s = stored (recordOf e)

end Budyk.Proof
