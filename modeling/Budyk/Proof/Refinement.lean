import Budyk.Proof.Holding
import Budyk.Spec.History

/-! The tier manager refines its history: each ring holds the last lap of its log, and each
aggregator the pending window. -/

namespace Budyk.Proof
open Lib Storage Spec

structure Stored where
  num : Nat
  sample : Sample

def Stored.ts (x : Stored) : Nat := x.sample.ts

def recordOf : Entry Stored → Sample
  | .direct x => x.sample
  | .folded c window => (AggregatorOf.ofWindow c.level (window.map Stored.sample)).folded

theorem recordOf_ts (e : Entry Stored) : (recordOf e).ts = e.ts Stored.ts := by
  cases e with
  | direct x => rfl
  | folded c window =>
      cases ends : window.getLast? with
      | none =>
          rw [List.getLast?_eq_none_iff] at ends
          subst ends
          rfl
      | some last =>
          have mapped : (window.map Stored.sample).getLast? = some last.sample := by
            rw [List.getLast?_map, ends]
            rfl
          rw [recordOf, AggregatorOf.folded_ts _ mapped, Entry.ts, ends]
          rfl

/-! ## A ring and its log -/

/-- The ring holds the last lap of the log; where a write fell short, a slot has no record. -/
structure RingLog (r : RingFile) (log : List (Entry Stored)) : Prop where
  quiet : r.Quiescent
  widx_eq : r.widx = log.length
  slots : ∀ i e, log[i]? = some e → log.length ≤ i + r.capacity →
    r.slots (i % r.capacity) = recordEncode (recordOf e) ∨
      decodeRecord (r.slots (i % r.capacity)) = none
  blank : ∀ i, log.length ≤ i → i < r.capacity → r.sampleAt i = none
  sized : r.capacity ≤ TierManager.maxCapacity

namespace RingLog
variable {r : RingFile} {log : List (Entry Stored)}

theorem create (tier : UInt8) (capacity : Nat) (pos : 0 < capacity) (sized : capacity ≤ TierManager.maxCapacity) :
    RingLog (RingFile.create tier capacity pos) [] where
  quiet := RingFile.create_quiescent tier capacity pos
  widx_eq := rfl
  slots := fun _ _ read => by cases read
  blank := fun _ _ _ => decodeRecord_zero
  sized := sized

theorem reopen (h : RingLog r log) : RingLog r.reopen log where
  quiet := r.reopen_quiescent
  widx_eq := h.quiet.writeIdx_eq.trans h.widx_eq
  slots := h.slots
  blank := h.blank
  sized := h.sized

theorem live (h : RingLog r log) {i : Nat} {s : Sample} (live : r.Live i s) :
    ∃ e, log[i]? = some e ∧ s = stored (recordOf e) := by
  obtain ⟨low, high, read⟩ := live
  have lap := r.widx_le_oldest_add
  rw [h.widx_eq] at high lap
  obtain ⟨e, entry⟩ : ∃ e, log[i]? = some e := ⟨log[i], List.getElem?_eq_getElem high⟩
  refine ⟨e, entry, ?_⟩
  rw [RingFile.sampleAt] at read
  rcases h.slots i e entry (by omega) with written | none
  · rw [written] at read
    exact eq_stored_of_decodeRecord read
  · rw [none] at read
    cases read

theorem live_ts (h : RingLog r log) {i : Nat} {s : Sample} (live : r.Live i s) :
    ∃ e, log[i]? = some e ∧ s.ts = e.ts Stored.ts := by
  obtain ⟨e, entry, rfl⟩ := h.live live
  exact ⟨e, entry, by rw [stored_ts, recordOf_ts]⟩

theorem timeOrdered (h : RingLog r log)
    (sorted : log.Pairwise fun e e' => e.ts Stored.ts ≤ e'.ts Stored.ts) : r.TimeOrdered := by
  intro i j s t liveI liveJ less
  obtain ⟨e, entryI, tsI⟩ := h.live_ts liveI
  obtain ⟨e', entryJ, tsJ⟩ := h.live_ts liveJ
  obtain ⟨boundI, rfl⟩ := List.getElem?_eq_some_iff.mp entryI
  obtain ⟨boundJ, rfl⟩ := List.getElem?_eq_some_iff.mp entryJ
  rw [tsI, tsJ]
  exact List.pairwise_iff_getElem.mp sorted i j boundI boundJ less

/-! ### `append` -/

theorem write (h : RingLog r log) (e : Entry Stored) :
    RingLog (r.append (recordEncode (recordOf e)) .written).2 (log ++ [e]) := by
  have pos := r.capacity_pos
  have size := recordEncode_length (recordOf e)
  have appended := r.append_written size
  have length : (log ++ [e]).length = log.length + 1 := by simp
  have slots (i : Nat) : (r.append (recordEncode (recordOf e)) .written).2.slots (i % r.capacity) =
      if i % r.capacity = log.length % r.capacity then recordEncode (recordOf e)
      else r.slots (i % r.capacity) := by
    rw [appended]
    simp only [RingFile.slot, h.widx_eq, Function.update_apply]
  have cap : (r.append (recordEncode (recordOf e)) .written).2.capacity = r.capacity := by rw [appended]
  refine ⟨r.append_written_quiescent size, ?_, ?_, ?_, cap ▸ h.sized⟩
  · rw [appended, length, ← h.widx_eq]
  · intro i e' entry near
    rw [cap, length] at near
    rw [cap, slots]
    rcases Nat.lt_or_ge i log.length with before | after
    · rw [if_neg (mod_ne_of_lt before (by omega))]
      rw [List.getElem?_append_left before] at entry
      exact h.slots i e' entry (by omega)
    · have last : i = log.length := by
        have bound := (List.getElem?_eq_some_iff.mp entry).1
        omega
      subst last
      rw [List.getElem?_concat_length] at entry
      cases entry
      simp
  · intro i low high
    rw [cap] at high
    rw [length] at low
    have other : i % r.capacity ≠ log.length % r.capacity := (mod_ne_of_lt (by omega) (by omega)).symm
    have read := slots i
    rw [if_neg other] at read
    rw [RingFile.sampleAt, cap, read]
    exact h.blank i (by omega) high

theorem failed (h : RingLog r log) (record : Record) (errno : Nat) :
    RingLog (r.append record (.failed errno)).2 log := by
  rw [RingFile.append]
  split
  · exact h
  · exact ⟨⟨h.quiet.writeIdx_eq, rfl⟩, h.widx_eq, h.slots, h.blank, h.sized⟩

theorem short (h : RingLog r log) (record : Record) (left : TornRecord) :
    RingLog (r.append record (.short left)).2 log := by
  rw [RingFile.append]
  split
  · exact h
  have slots (i : Nat) : (r.putSlot left.bytes).slots i =
      if i = r.slot then left.bytes else r.slots i := Function.update_apply ..
  refine ⟨⟨h.quiet.writeIdx_eq, rfl⟩, h.widx_eq, ?_, ?_, h.sized⟩
  · intro i e entry near
    change (r.putSlot left.bytes).slots (i % r.capacity) = _ ∨
      decodeRecord ((r.putSlot left.bytes).slots (i % r.capacity)) = none
    rw [slots]
    split
    · exact Or.inr left.torn
    · exact h.slots i e entry near
  · intro i low high
    change decodeRecord ((r.putSlot left.bytes).slots (i % r.capacity)) = none
    rw [slots]
    split
    · exact left.torn
    · exact h.blank i low high

end RingLog

/-! ## The manager and its history -/

/-- How the ring of a leaf has the log of its file. -/
abbrev HoldsLog := Leaf → RingFile → List (Entry Stored) → Prop

def completes : Pwrite → Bool
  | .written => true
  | .failed _ => false
  | .short _ => false

def Keeps (holds : HoldsLog) (io : Pwrite) : Prop :=
  ∀ leaf r log e, holds leaf r log →
    holds leaf (r.append (recordEncode (recordOf e)) io).2 (log ++ if completes io then [e] else [])

theorem RingLog.keeps (io : Pwrite) : Keeps (fun _ => RingLog) io := by
  intro leaf r log e ring
  cases io with
  | written => exact ring.write e
  | failed errno => simpa [completes] using ring.failed _ errno
  | short left => simpa [completes] using ring.short _ left

def succeeds (m : TierManager) (leaf : Leaf) (io : Pwrite) : Bool := completes io && (m.rings leaf).isSome

structure Represents (holds : HoldsLog) (m : TierManager)
    (h : History Stored) : Prop where
  heldOpen : ∀ leaf r, m.rings leaf = some r → holds leaf r (h.log leaf)
  absent : ∀ leaf, m.rings leaf = none → h.log leaf = []
  fold : ∀ c, m.fold c = AggregatorOf.ofWindow c.level ((h.windows c).pending.map Stored.sample)

def SameRings (m m' : TierManager) : Prop :=
  (∀ leaf, (m'.rings leaf).isSome = (m.rings leaf).isSome) ∧ m'.foldNs = m.foldNs ∧
    m'.ready = m.ready ∧ m'.custom = m.custom

theorem SameRings.trans {m m' m'' : TierManager} (first : SameRings m m') (second : SameRings m' m'') :
    SameRings m m'' :=
  ⟨fun leaf => (second.1 leaf).trans (first.1 leaf), second.2.1.trans first.2.1,
    second.2.2.1.trans first.2.2.1, second.2.2.2.trans first.2.2.2⟩

theorem SameRings.succeeds {m m' : TierManager} (same : SameRings m m') (leaf : Leaf) (io : Pwrite) :
    succeeds m' leaf io = succeeds m leaf io := by
  rw [Budyk.Proof.succeeds, Budyk.Proof.succeeds, same.1 leaf]

theorem Represents.setRing {holds : HoldsLog} {m m' : TierManager} {h h' : History Stored} {leaf : Leaf}
    {r : RingFile} (rep : Represents holds m h) (ring : holds leaf r (h'.log leaf))
    (rings : m'.rings = Function.update m.rings leaf (some r)) (fold : m'.fold = m.fold)
    (logs : ∀ leaf', leaf' ≠ leaf → h'.log leaf' = h.log leaf') (windows : h'.windows = h.windows) :
    Represents holds m' h' := by
  refine ⟨fun leaf' r' file => ?_, fun leaf' file => ?_, fun c => ?_⟩
  · rw [rings, Function.update_apply] at file
    split at file
    · rename_i same
      rw [same, ← Option.some.inj file]
      exact ring
    · rename_i other
      rw [logs leaf' other]
      exact rep.heldOpen leaf' r' file
  · rw [rings, Function.update_apply] at file
    split at file
    · cases file
    · rename_i other
      rw [logs leaf' other]
      exact rep.absent leaf' file
  · rw [fold, windows]
    exact rep.fold c

theorem append_none {m : TierManager} {leaf : Leaf} (file : m.rings leaf = none) (s : Sample) (io : Pwrite) :
    (m.append leaf s io).2 = { m with storeError := some ⟨leaf, EIO⟩ } := by
  rw [TierManager.append, file]

theorem append_some {m : TierManager} {leaf : Leaf} {r : RingFile} (file : m.rings leaf = some r)
    (s : Sample) (io : Pwrite) :
    ∃ error, (m.append leaf s io).2 = { m with
      rings := Function.update m.rings leaf (some (r.append (recordEncode s) io).2)
      storeError := error } := by
  rw [TierManager.append, file]
  simp only
  split
  · exact ⟨_, rfl⟩
  · exact ⟨m.storeError, rfl⟩

theorem append_sameRings (m : TierManager) (leaf : Leaf) (s : Sample) (io : Pwrite) :
    SameRings m (m.append leaf s io).2 := by
  cases file : m.rings leaf with
  | none =>
      rw [append_none file]
      exact ⟨fun _ => rfl, rfl, rfl, rfl⟩
  | some r =>
      obtain ⟨error, appended⟩ := append_some file s io
      rw [appended]
      refine ⟨fun leaf' => ?_, rfl, rfl, rfl⟩
      simp only [Function.update_apply]
      split
      · rename_i same
        rw [same, file]
        rfl
      · rfl

theorem append_represents {holds : HoldsLog} {m : TierManager} {h : History Stored}
    (rep : Represents holds m h) (leaf : Leaf) (e : Entry Stored) (io : Pwrite)
    (keeps : Keeps holds io) :
    Represents holds (m.append leaf (recordOf e) io).2 (h.write leaf e (succeeds m leaf io)) := by
  cases file : m.rings leaf with
  | none =>
      have none : succeeds m leaf io = false := by simp [succeeds, file]
      rw [none, append_none file]
      exact ⟨rep.heldOpen, rep.absent, rep.fold⟩
  | some r =>
      have extended : holds leaf (r.append (recordEncode (recordOf e)) io).2
          ((h.write leaf e (succeeds m leaf io)).log leaf) := by
        rw [History.write_log]
        simpa [succeeds, file] using keeps leaf r _ e (rep.heldOpen leaf r file)
      obtain ⟨error, appended⟩ := append_some file (recordOf e) io
      rw [appended]
      refine rep.setRing extended rfl rfl (fun leaf' other => ?_) (History.write_windows ..)
      rw [History.write_log, if_neg (fun both => other both.2), List.append_nil]

theorem Represents.setWindow {holds : HoldsLog} {m : TierManager} {h : History Stored}
    (rep : Represents holds m h) (c : Coarse) (t : Tumbling Stored) :
    Represents holds { m with
      fold := Function.update m.fold c (.ofWindow c.level (t.pending.map Stored.sample)) }
      (h.setWindow c t) := by
  refine ⟨rep.heldOpen, rep.absent, fun c' => ?_⟩
  rw [History.setWindow_windows]
  simp only [Function.update_apply]
  split
  · rename_i same
    rw [same]
  · exact rep.fold c'

/-! ## The steps -/

section Steps
variable {holds : HoldsLog} {m : TierManager} {h : History Stored}

theorem flush_sameRings (m : TierManager) (c : Coarse) (io : Pwrite) : SameRings m (m.flush c io).2 := by
  unfold TierManager.flush
  cases (m.fold c).fold with
  | mk out agg =>
      cases out with
      | none => exact ⟨fun _ => rfl, rfl, rfl, rfl⟩
      | some folded =>
          exact append_sameRings { m with fold := Function.update m.fold c agg } c.leaf folded io

theorem flush_represents (rep : Represents holds m h) (c : Coarse) (io : Pwrite)
    (keeps : Keeps holds io) :
    Represents holds (m.flush c io).2 (h.flush c (succeeds m c.leaf io)) := by
  have cut := rep.setWindow c (h.windows c).cut
  rw [Tumbling.cut_pending, List.map_nil] at cut
  rw [TierManager.flush, rep.fold c, AggregatorOf.fold_ofWindow, History.flush]
  by_cases none : (h.windows c).pending = []
  · rw [if_pos none, if_pos (by rw [none]; rfl)]
    rw [Tumbling.cut_of_nil none] at cut
    refine ⟨cut.heldOpen, cut.absent, fun c' => (cut.fold c').trans ?_⟩
    rw [History.setWindow_windows]
    split
    · rename_i same
      rw [same]
    · rfl
  · rw [if_neg none, if_neg (by simpa using none)]
    exact append_represents cut c.leaf (.folded c (h.windows c).pending) io keeps

theorem outside_iff (rep : Represents holds m h) (c : Coarse) (x : Stored) :
    m.outside c x.sample ↔ Tumbling.Outside Stored.ts (m.foldNs c) (h.windows c).pending x := by
  rw [TierManager.outside, rep.fold c, AggregatorOf.size, AggregatorOf.ofWindow_n]
  cases (h.windows c).pending with
  | nil => simp [Tumbling.Outside]
  | cons first rest =>
      simp only [List.map_cons, AggregatorOf.firstTimestamp, AggregatorOf.ofWindow_firstTs,
        Tumbling.Outside, List.length_cons, Nat.zero_lt_succ, true_and, gt_iff_lt]
      rfl

theorem addTo_represents (rep : Represents holds m h) (c : Coarse) (x : Stored) :
    Represents holds (m.addTo c x.sample) (h.push c x) := by
  have pushed := rep.setWindow c ((h.windows c).push x)
  have added : AggregatorOf.ofWindow c.level (((h.windows c).push x).pending.map Stored.sample) =
      (m.fold c).add x.sample := by
    rw [rep.fold c, ← AggregatorOf.ofWindow_append]
    simp [Tumbling.push]
  rw [added] at pushed
  exact pushed

theorem addTo_sameRings (m : TierManager) (c : Coarse) (s : Sample) : SameRings m (m.addTo c s) :=
  ⟨fun _ => rfl, rfl, rfl, rfl⟩

theorem foldWindow_sameRings (m : TierManager) (c : Coarse) (s : Sample) (io : Pwrite) :
    SameRings m (m.foldWindow c s io).2 := by
  unfold TierManager.foldWindow TierManager.feed
  split
  · exact flush_sameRings m c io
  · split
    · exact ⟨fun _ => rfl, rfl, rfl, rfl⟩
    · split
      · exact (flush_sameRings m c io).trans (addTo_sameRings _ c s)
      · exact addTo_sameRings m c s

theorem foldWindow_represents (rep : Represents holds m h) (c : Coarse) (x : Stored) (io : Pwrite)
    (keeps : Keeps holds io) :
    Represents holds (m.foldWindow c x.sample io).2 (h.foldWindow Stored.ts m.foldNs c
      (TierManager.endsWindow x.sample.level c) x (succeeds m c.leaf io)) := by
  unfold TierManager.foldWindow History.foldWindow
  split
  · exact flush_represents rep c io keeps
  · unfold TierManager.feed History.feed
    split
    · exact rep
    · by_cases outside : m.outside c x.sample
      · rw [if_pos outside, if_pos ((outside_iff rep c x).mp outside)]
        exact addTo_represents (flush_represents rep c io keeps) c x
      · rw [if_neg outside, if_neg (mt (outside_iff rep c x).mpr outside)]
        exact addTo_represents rep c x

def storeHistory (m : TierManager) (h : History Stored) (x : Stored) (io : TierManager.StoreIo) :
    History Stored :=
  if m.ready then
    match TierManager.ringFor m.custom x.sample.level with
    | none => h
    | some target => h.store Stored.ts m.foldNs target (TierManager.endsWindow x.sample.level) x
        (fun c => succeeds m c.leaf (io.fold c)) (succeeds m target io.direct)
  else h

theorem store_sameRings (m : TierManager) (s : Sample) (io : TierManager.StoreIo) :
    SameRings m (m.store s io).2 := by
  unfold TierManager.store
  split
  · exact ⟨fun _ => rfl, rfl, rfl, rfl⟩
  · split
    · exact ⟨fun _ => rfl, rfl, rfl, rfl⟩
    · exact ((foldWindow_sameRings m .l2 s _).trans (foldWindow_sameRings _ .l1 s _)).trans
        (append_sameRings _ _ s _)

theorem store_represents (rep : Represents holds m h) (x : Stored) (io : TierManager.StoreIo)
    (keeps : ∀ c, Keeps holds (io.fold c)) (keepsDirect : Keeps holds io.direct) :
    Represents holds (m.store x.sample io).2 (storeHistory m h x io) := by
  unfold TierManager.store storeHistory
  cases ready : m.ready with
  | false => exact rep
  | true =>
      cases found : TierManager.ringFor m.custom x.sample.level with
      | none => exact rep
      | some target =>
          have first := foldWindow_represents rep .l2 x (io.fold .l2) (keeps .l2)
          have same := foldWindow_sameRings m .l2 x.sample (io.fold .l2)
          have second := foldWindow_represents first .l1 x (io.fold .l1) (keeps .l1)
          have same' := same.trans (foldWindow_sameRings _ .l1 x.sample (io.fold .l1))
          rw [same.succeeds, same.2.1] at second
          have third := append_represents second target (.direct x) io.direct keepsDirect
          rw [same'.succeeds] at third
          exact third

def closeHistory (m : TierManager) (h : History Stored) (io : Coarse → Pwrite) : History Stored :=
  if m.ready then
    (h.flush .l2 (succeeds m .tier2 (io .l2))).flush .l1 (succeeds m .tier3 (io .l1))
  else h

theorem close_represents (rep : Represents holds m h) (io : Coarse → Pwrite)
    (keeps : ∀ c, Keeps holds (io c)) : Represents holds (m.close io) (closeHistory m h io) := by
  unfold TierManager.close closeHistory
  cases ready : m.ready with
  | false => exact rep
  | true =>
      have first := flush_represents rep .l2 (io .l2) (keeps .l2)
      have second := flush_represents first .l1 (io .l1) (keeps .l1)
      rw [(flush_sameRings m .l2 (io .l2)).succeeds] at second
      exact ⟨second.heldOpen, second.absent, second.fold⟩

end Steps

/-! ## Runs -/

def stepHistory (m : TierManager) (h : History Stored) (num : Nat) : TierManager.Op → History Stored
  | .store s io => storeHistory m h ⟨num, s⟩ io
  | .close io => closeHistory m h io
  | .init _ _ _ => h

def runHistory (m : TierManager) (h : History Stored) (num : Nat) : List TierManager.Op → History Stored
  | [] => h
  | op :: ops => runHistory (m.step op) (stepHistory m h num op) (num + 1) ops

def stampOf : TierManager.Op → Option Nat
  | .store s _ => some s.ts
  | .close _ => none
  | .init _ _ _ => none

end Budyk.Proof
