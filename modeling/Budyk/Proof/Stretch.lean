import Budyk.Proof.Cover
import Budyk.Proof.OneRecord
import Budyk.Proof.TimeOrder

/-! `query_all` in every state a run of a manager reaches: which folded records it returns. -/

namespace Budyk.Proof
open Lib Storage Spec

theorem initRing_foldNs (m : TierManager) (clock : Nat) (leaf : Leaf) (tier : UInt8) (maxMb : Int)
    (fault : Option TierManager.OpenFault) : (left (m.initRing clock leaf tier maxMb fault)).foldNs = m.foldNs := by
  unfold TierManager.initRing
  split <;> rfl

theorem init_foldNs (m : TierManager) (args : TierManager.InitArgs) (clock : Nat)
    (faults : Leaf → Option TierManager.OpenFault) : (m.init args clock faults).2.foldNs = m.foldNs :=
  init_keeps (P := fun m' => m'.foldNs = m.foldNs) (fun _ _ _ _ same before => same.trans before)
    (fun m' clock leaf tier maxMb fault before =>
      (initRing_foldNs m' clock leaf tier maxMb fault).trans before) rfl args clock faults

theorem step_foldNs (m : TierManager) (op : TierManager.Op) : (m.step op).foldNs = m.foldNs := by
  cases op with
  | store s io => exact (store_sameRings m s io).2.1
  | close io =>
      rw [TierManager.step, TierManager.close]
      split
      · rfl
      · exact ((flush_sameRings m .l2 (io .l2)).trans (flush_sameRings _ .l1 (io .l1))).2.1
  | init args clock faults => exact init_foldNs m args clock faults

/-! ## Reachable states -/

def Aged (width : Coarse → Nat) (latest : Nat) (c : Coarse) (window : List Stored) : Prop :=
  Tumbling.Fits Stored.ts (width c) window ∧ window.Pairwise (fun x y => x.ts ≤ y.ts) ∧
    ∀ x ∈ window, 0 < x.ts ∧ x.ts ≤ latest

theorem Aged.nil (width : Coarse → Nat) (latest : Nat) (c : Coarse) : Aged width latest c [] :=
  ⟨trivial, List.Pairwise.nil, fun _ member => by cases member⟩

theorem Aged.join {width : Coarse → Nat} {c : Coarse} {window : List Stored} {x : Stored}
    (aged : Aged width x.ts c window) (positive : 0 < x.ts) (on : width c ≠ 0)
    (inside : ¬Tumbling.Outside Stored.ts (width c) window x) : Aged width x.ts c (window ++ [x]) := by
  obtain ⟨fits, sorted, past⟩ := aged
  refine ⟨fits.append (Nat.pos_of_ne_zero on) inside, ?_, ?_⟩
  · rw [List.pairwise_append]
    refine ⟨sorted, List.pairwise_singleton _ _, fun y old z new => ?_⟩
    rw [List.mem_singleton.mp new]
    exact (past y old).2
  · intro y member
    rcases List.mem_append.mp member with old | new
    · exact past y old
    · rw [List.mem_singleton.mp new]
      exact ⟨positive, le_rfl⟩

/-- What every state of a run keeps: the rings hold a history in time order, of windows of a fixed width. -/
structure Reached (width : Coarse → Nat) (m : TierManager) (h : History Stored) (latest : Nat) : Prop where
  ordered : InOrder m h latest
  positive : 0 < latest
  width_eq : m.foldNs = width
  sound : h.Sound (fun _ _ => True) (Aged width latest)

section Reached
variable {width : Coarse → Nat} {m : TierManager} {h : History Stored} {latest : Nat}

theorem Reached.later (reached : Reached width m h latest) {now : Nat} (le : latest ≤ now) :
    h.Sound (fun _ _ => True) (Aged width now) :=
  reached.sound.weaken fun _ _ ⟨fits, sorted, past⟩ =>
    ⟨fits, sorted, fun x member => ⟨(past x member).1, (past x member).2.trans le⟩⟩

theorem Reached.step (reached : Reached width m h latest) (num : Nat) (op : TierManager.Op)
    (newest : ∀ now ∈ stampOf op, latest ≤ now) :
    Reached width (m.step op) (stepHistory m h num op) ((stampOf op).getD latest) := by
  refine ⟨step_inOrder reached.ordered num op newest, ?_, (step_foldNs m op).trans reached.width_eq, ?_⟩
  · cases stamp : stampOf op with
    | none => exact reached.positive
    | some now => exact reached.positive.trans_le (newest now stamp)
  · cases op with
    | store s io =>
        have later := reached.later (newest s.ts rfl)
        change (storeHistory m h ⟨num, s⟩ io).Sound _ (Aged width s.ts)
        unfold storeHistory
        split
        · split
          · exact later
          · refine later.store (Aged.nil _ _) _ _ trivial fun c _ on window aged inside => ?_
            rw [reached.width_eq] at on inside
            exact Aged.join (x := ⟨num, s⟩) aged (reached.positive.trans_le (newest s.ts rfl)) on inside
        · exact later
    | close io =>
        change (closeHistory m h io).Sound _ (Aged width latest)
        unfold closeHistory
        split
        · exact (reached.sound.flush (Aged.nil _ _ _) _).flush (Aged.nil _ _ _) _
        · exact reached.sound
    | init args clock faults => exact reached.sound

theorem Reached.ringsOrdered (reached : Reached width m h latest) : RingsOrdered m :=
  fun _ _ _ file => reached.ordered.timeOrdered file

theorem Reached.folded (reached : Reached width m h latest) {c : Coarse} {r : RingFile} {i : Nat} {s : Sample}
    {window : List Stored} (file : m.rings c.leaf = some r) (live : r.Live i s)
    (entry : (h.log c.leaf)[i]? = some (.folded c window)) :
    s.folded = true ∧ m.foldNs c ≠ 0 ∧ ∀ x ∈ window, s.ts - m.foldNs c < x.ts ∧ x.ts ≤ s.ts := by
  obtain ⟨e, entry', rfl⟩ := (reached.ordered.rep.heldOpen _ r file).live live
  rw [entry] at entry'
  cases entry'
  obtain ⟨-, nonempty, fits, sorted, past⟩ := reached.sound.folded _ c window (List.mem_of_getElem? entry)
  obtain ⟨last, ends⟩ := Option.ne_none_iff_exists'.mp (mt List.getLast?_eq_none_iff.mp nonempty)
  have stamp : (stored (recordOf (.folded c window))).ts = last.ts := by
    rw [stored_ts, recordOf_ts, History.ts_folded ends]
  rw [stamp, reached.width_eq]
  have newest (x : Stored) (member : x ∈ window) : x.ts ≤ last.ts := by
    obtain ⟨before, rfl⟩ := List.getLast?_eq_some_iff.mp ends
    rcases List.mem_append.mp member with early | final
    · exact (List.pairwise_append.mp sorted).2.2 x early last (List.mem_singleton.mpr rfl)
    · rw [List.mem_singleton.mp final]
  cases window with
  | nil => exact absurd rfl nonempty
  | cons first rest =>
      have lastFits := fits last (List.mem_of_getLast? ends)
      refine ⟨rfl, by omega, fun x member => ⟨?_, newest x member⟩⟩
      have own := fits x member
      have positive := (past x member).1
      omega

end Reached

/-! ## Folded records -/

structure FoldedAt (m : TierManager) (h : History Stored) (w : Window) (c : Coarse) (i : Nat) (s : Sample)
    (window : List Stored) : Prop where
  live : ∃ r, m.rings c.leaf = some r ∧ r.Live i s
  inside : w.has s = true
  entry : (h.log c.leaf)[i]? = some (.folded c window)

section FoldedAt
variable {width : Coarse → Nat} {m : TierManager} {h : History Stored} {latest : Nat} {w : Window}
  {std : TimeSort} {out : List Pick} {c : Coarse} {i : Nat} {s : Sample} {window : List Stored}

theorem FoldedAt.returned (reached : Reached width m h latest) (answered : m.queryAll std w = some out)
    (unspread : ∀ r, m.rings c.leaf = some r → windowCount r w ≤ w.maxRecords)
    (unthinned : (m.picks w).length ≤ w.maxRecords) (record : FoldedAt m h w c i s window)
    (alone : ¬FinerIn m c (s.ts - m.foldNs c) s.ts) : ∃ p ∈ out, p.leaf = c.leaf ∧ p.idx = i := by
  obtain ⟨r, file, live⟩ := record.live
  have ordered := reached.ringsOrdered
  have sized : r.capacity ≤ 2 ^ 32 :=
    (reached.ordered.rep.heldOpen _ r file).sized.trans (by decide)
  have picked : (⟨c.leaf, i, s⟩ : Pick) ∈ m.spread w c.leaf none := (mem_spread file).mpr
    ⟨rfl, mem_spread_of_live (ordered _ (coarse_mem_leaves c) r file) sized (unspread r file) live record.inside⟩
  refine ⟨⟨c.leaf, i, s⟩, ?_, rfl, rfl⟩
  rw [mem_queryAll_iff answered unthinned, mem_picks_coarse ordered rfl, mem_uncovered ordered]
  exact ⟨picked, fun covered => alone covered.2.2⟩

end FoldedAt

/-! ## Rings of one record -/

section OneRecord
variable {m : TierManager} {h : History Stored} {w : Window}

theorem OneRecord.answered (one : OneRecord m h) (std : TimeSort) (limit : 0 < w.maxRecords) :
    ∃ out, m.queryAll std w = some out := by
  refine ⟨thin w.maxRecords (std.sort (m.picks w)), ?_⟩
  simp [TierManager.queryAll, one.ready, Nat.ne_of_gt limit]

theorem OneRecord.leaf {leaf : Leaf} (one : OneRecord m h) (member : leaf ∈ m.leaves) :
    leaf ∈ [Leaf.tier1, .tier2, .tier3] := by
  simpa [TierManager.leaves, TierManager.finer, one.custom] using member

theorem OneRecord.windowCount_le (one : OneRecord m h) {c : Coarse} {r : RingFile}
    (file : m.rings c.leaf = some r) : windowCount r w ≤ 1 := by
  obtain ⟨r', file', capacity, -⟩ := one.rings c.leaf (one.leaf (coarse_mem_leaves c))
  obtain rfl : r' = r := Option.some.inj (file'.symm.trans file)
  rw [← capacity]
  exact Budyk.Proof.windowCount_le r' w

end OneRecord

def Held (m : TierManager) (h : History Stored) (c : Coarse) (window : List Stored) : Prop :=
  ∃ x ∈ window, ∃ leaf ∈ m.finer c, ∃ r j s, m.rings leaf = some r ∧ r.Live j s ∧
    (h.log leaf)[j]? = some (.direct x)

/-- A window that an L1 sample cut short: the L2 sample folded alone is gone from tier2, and the L3
sample of the window before is within ten of its stamp. -/
def cutShort : List Sample :=
  [mkSample Level.L3 100, mkSample Level.L1 101, mkSample Level.L2 102, mkSample Level.L2 112]

end Budyk.Proof
