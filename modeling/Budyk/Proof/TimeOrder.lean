import Budyk.Proof.Opening

/-! Every ring stays in time order, over any run of a manager whose stamps do not fall. -/

namespace Budyk.Proof
open Lib Storage Spec

/-! ## Runs -/

/-- The rings hold a history in time order up to `latest`. -/
structure InOrder (m : TierManager) (h : History Stored) (latest : Nat) : Prop where
  rep : Represents (fun _ => RingLog) m h
  chronological : h.Chronological Stored.ts latest

theorem InOrder.timeOrdered {m : TierManager} {h : History Stored} {latest : Nat}
    (ordered : InOrder m h latest) {leaf : Leaf} {r : RingFile} (file : m.rings leaf = some r) :
    r.TimeOrdered :=
  (ordered.rep.heldOpen leaf r file).timeOrdered (ordered.chronological.sorted leaf)

theorem endsWindow_of_target {custom : List CustomRing} {level : Level} {target : Leaf}
    (found : TierManager.ringFor custom level = some target) (c : Coarse) (same : target = c.leaf) :
    TierManager.endsWindow level c = true := by
  subst same
  unfold TierManager.ringFor at found
  cases c with
  | l2 =>
      split at found
      · cases found
      · split at found
        · rename_i isL2
          simp [TierManager.endsWindow, isL2]
        · split at found
          · cases found
          · obtain ⟨ring, named, other⟩ := Option.map_eq_some_iff.mp found
            cases other
  | l1 =>
      split at found
      · cases found
      · split at found
        · cases found
        · split at found
          · rename_i isL1
            simp [TierManager.endsWindow, isL1]
          · obtain ⟨ring, named, other⟩ := Option.map_eq_some_iff.mp found
            cases other

section Steps
variable {m : TierManager} {h : History Stored} {latest : Nat}

theorem store_inOrder (ordered : InOrder m h latest) (x : Stored) (io : TierManager.StoreIo)
    (newest : latest ≤ x.ts) : InOrder (m.store x.sample io).2 (storeHistory m h x io) x.ts := by
  refine ⟨store_represents ordered.rep x io (fun _ => RingLog.keeps _) (RingLog.keeps _), ?_⟩
  unfold storeHistory
  split
  · split
    · exact ordered.chronological.later newest
    · rename_i target found
      exact ordered.chronological.store newest _ _ (endsWindow_of_target found)
  · exact ordered.chronological.later newest

theorem close_inOrder (ordered : InOrder m h latest) (io : Coarse → Pwrite) :
    InOrder (m.close io) (closeHistory m h io) latest := by
  refine ⟨close_represents ordered.rep io (fun _ => RingLog.keeps _), ?_⟩
  unfold closeHistory
  split
  · exact (ordered.chronological.flush _).flush _
  · exact ordered.chronological

theorem InOrder.congr {m' : TierManager} (ordered : InOrder m h latest) (rings : m'.rings = m.rings)
    (fold : m'.fold = m.fold) : InOrder m' h latest :=
  ⟨⟨rings ▸ ordered.rep.heldOpen, rings ▸ ordered.rep.absent, fold ▸ ordered.rep.fold⟩, ordered.chronological⟩

theorem openRing_log (rep : Represents (fun _ => RingLog) m h) {leaf : Leaf} {tier : UInt8}
    {maxMb : TierManager.MaxMb} {fault : Option TierManager.OpenFault} {r : RingFile}
    (opened : m.openRing leaf tier maxMb fault = .ok r) : RingLog r (h.log leaf) := by
  unfold TierManager.openRing at opened
  cases fault with
  | some fault => cases opened
  | none =>
      cases file : m.rings leaf with
      | none =>
          rw [file] at opened
          cases opened
          rw [rep.absent leaf file]
          exact RingLog.create _ _ _ (TierManager.recordsFromMb_le maxMb)
      | some ring =>
          rw [file] at opened
          simp only at opened
          split at opened
          · cases opened
          · split at opened
            · cases opened
            · cases opened
              exact (rep.heldOpen leaf ring file).reopen

theorem initRing_inOrder (ordered : InOrder m h latest) (clock : Nat)
    (leaf : Leaf) (tier : UInt8) (maxMb : TierManager.MaxMb) (fault : Option TierManager.OpenFault) :
    InOrder (left (m.initRing clock leaf tier maxMb fault)) h latest := by
  unfold TierManager.initRing
  cases opened : m.openRing leaf tier maxMb fault with
  | error e => exact ordered.congr rfl rfl
  | ok r =>
      have ring := openRing_log ordered.rep opened
      have unchanged := recover_of_timeOrdered (ring.timeOrdered (ordered.chronological.sorted leaf))
        (fun i low => ring.blank i (by rwa [ring.widx_eq] at low)) clock
      simp only [unchanged]
      exact ⟨ordered.rep.setRing ring rfl rfl (fun _ _ => rfl) rfl, ordered.chronological⟩

theorem init_inOrder (ordered : InOrder m h latest) (args : TierManager.InitArgs) (clock : Nat)
    (faults : Leaf → Option TierManager.OpenFault) : InOrder (m.init args clock faults).2 h latest :=
  init_keeps (P := fun m => InOrder m h latest) (fun _ _ rings fold _ ordered => ordered.congr rings fold)
    (fun _ clock leaf tier maxMb fault ordered => initRing_inOrder ordered clock leaf tier maxMb fault)
    ordered args clock faults

theorem step_inOrder (ordered : InOrder m h latest) (num : Nat) (op : TierManager.Op)
    (newest : ∀ now ∈ stampOf op, latest ≤ now) :
    InOrder (m.step op) (stepHistory m h num op) ((stampOf op).getD latest) := by
  cases op with
  | store s io => exact store_inOrder ordered ⟨num, s⟩ io (newest s.ts rfl)
  | close io => exact close_inOrder ordered io
  | init args clock faults => exact init_inOrder ordered args clock faults

end Steps

end Budyk.Proof
