import Budyk.Proof.Opening

/-! Folding conserves samples: between opening and closing, every sample is folded into exactly one
record of each ring coarser than its level. -/

namespace Budyk.Proof
open Lib Storage Spec

def appendAll (r : RingFile) (log : List (Entry Stored)) : RingFile :=
  log.foldl (fun r e => (r.append (recordEncode (recordOf e)) .written).2) r

/-- A ring is what it was in `m`, and the records appended since. -/
def Appended (m : TierManager) : HoldsLog := fun leaf r log =>
  ∃ r₀, m.rings leaf = some r₀ ∧ r = appendAll r₀ log

theorem appended_keeps (m : TierManager) : Keeps (Appended m) .written := by
  rintro leaf r log e ⟨r₀, file, rfl⟩
  refine ⟨r₀, file, ?_⟩
  simp [appendAll, completes, List.foldl_append]

def numbered (num : Nat) (samples : List Sample) : List Stored :=
  (samples.zipIdx num).map fun p => ⟨p.2, p.1⟩

def fedTo (c : Coarse) (items : List Stored) : List Stored :=
  items.filter fun x => !TierManager.endsWindow x.sample.level c

def okStores (samples : List Sample) : List TierManager.Op := samples.map fun s => .store s .ok

structure Folding (m₀ : TierManager) (fed : Coarse → List Stored) (m : TierManager) (h : History Stored) :
    Prop where
  same : SameRings m₀ m
  rep : Represents (Appended m₀) m h
  conserved : h.Conserved fed
  sound : h.Sound (fun _ _ => True) fun c => Tumbling.Fits Stored.ts (m₀.foldNs c)

section Run
variable {m₀ m : TierManager} {fed : Coarse → List Stored} {h : History Stored}

variable (ready : m₀.ready = true) (tiers : ∀ c : Coarse, (m₀.rings c.leaf).isSome)
include ready tiers

theorem storeHistory_ok (same : SameRings m₀ m) (h : History Stored) (x : Stored) {target : Leaf}
    (found : TierManager.ringFor m₀.custom x.sample.level = some target) (there : (m₀.rings target).isSome) :
    storeHistory m h x .ok = h.store Stored.ts m₀.foldNs target (TierManager.endsWindow x.sample.level) x
      (fun _ => true) true := by
  have folds (c : Coarse) : succeeds m c.leaf (TierManager.StoreIo.ok.fold c) = true := by
    rw [same.succeeds, succeeds, tiers c]
    rfl
  have direct : succeeds m target TierManager.StoreIo.ok.direct = true := by
    rw [same.succeeds, succeeds, there]
    rfl
  simp only [storeHistory, same.2.2.1, ready, if_true, same.2.2.2, found, same.2.1, folds, direct]

theorem Folding.store (folding : Folding m₀ fed m h) (positive : ∀ c, 0 < m₀.foldNs c) (x : Stored)
    {target : Leaf} (found : TierManager.ringFor m₀.custom x.sample.level = some target)
    (there : (m₀.rings target).isSome) :
    Folding m₀ (fun c => fed c ++ fedTo c [x]) (m.store x.sample .ok).2 (storeHistory m h x .ok) := by
  obtain ⟨same, rep, conserved, sound⟩ := folding
  have stored := storeHistory_ok ready tiers same h x found there
  refine ⟨same.trans (store_sameRings ..), store_represents rep x .ok (fun _ => appended_keeps m₀)
    (appended_keeps m₀), ?_, ?_⟩
  · rw [stored]
    have next : (h.store Stored.ts m₀.foldNs target (TierManager.endsWindow x.sample.level) x (fun _ => true)
        true).Conserved _ := conserved.store positive target _
    refine ⟨next.closed, fun c => (next.all c).trans ?_⟩
    cases ends : TierManager.endsWindow x.sample.level c <;> simp [fedTo, ends]
  · rw [stored]
    exact sound.store (fun _ => trivial) _ _ trivial
      (fun c _ _ window fits inside => fits.append (positive c) inside)

theorem Folding.stores (folding : Folding m₀ fed m h) (positive : ∀ c, 0 < m₀.foldNs c) (num : Nat)
    (samples : List Sample) (known : ∀ s ∈ samples, ∃ target,
      TierManager.ringFor m₀.custom s.level = some target ∧ (m₀.rings target).isSome) :
    Folding m₀ (fun c => fed c ++ fedTo c (numbered num samples)) (m.run (okStores samples))
      (runHistory m h num (okStores samples)) := by
  induction samples generalizing m h fed num with
  | nil => simpa [numbered, fedTo, okStores, TierManager.run, runHistory] using folding
  | cons s samples ih =>
      obtain ⟨target, found, there⟩ := known s List.mem_cons_self
      have next := folding.store ready tiers positive ⟨num, s⟩ found there
      have all := ih next (num + 1) (fun s' member => known s' (List.mem_cons_of_mem _ member))
      have split : numbered num (s :: samples) = [⟨num, s⟩] ++ numbered (num + 1) samples := rfl
      simp only [split, fedTo, List.filter_append, ← List.append_assoc]
      exact all

theorem Folding.close (folding : Folding m₀ fed m h) :
    Represents (Appended m₀) (m.close fun _ => .written) (closeHistory m h fun _ => .written) ∧
      (closeHistory m h fun _ => .written).Conserved fed ∧
      (closeHistory m h fun _ => .written).Sound (fun _ _ => True)
        (fun c => Tumbling.Fits Stored.ts (m₀.foldNs c)) ∧
      ∀ c, ((closeHistory m h fun _ => .written).windows c).pending = [] := by
  obtain ⟨same, rep, conserved, sound⟩ := folding
  have closed : (closeHistory m h fun _ => .written) = (h.flush .l2 true).flush .l1 true := by
    have flushes (c : Coarse) : succeeds m c.leaf .written = true := by
      rw [same.succeeds, succeeds, tiers c]
      rfl
    have l2 : succeeds m .tier2 .written = true := flushes .l2
    have l1 : succeeds m .tier3 .written = true := flushes .l1
    simp only [closeHistory, same.2.2.1, ready, if_true, l2, l1]
  refine ⟨close_represents rep _ (fun _ => appended_keeps m₀), ?_, ?_, fun c => ?_⟩
  · rw [closed]
    exact conserved.flush.flush
  · rw [closed]
    exact (sound.flush trivial true).flush trivial true
  · rw [closed]
    cases c with
    | l2 => rw [History.flush_windows, if_neg (by decide), History.flush_windows, if_pos rfl, Tumbling.cut_pending]
    | l1 => rw [History.flush_windows, if_pos rfl, Tumbling.cut_pending]

end Run

end Budyk.Proof
