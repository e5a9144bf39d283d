import Mathlib.Data.List.Nodup
import Budyk.Lib.Tumbling
import Budyk.Storage.TierManager

/-! What a tier manager is for: every ring is a log that only grows, of the samples of its level
and, for the two coarse ones, of the windows folded from finer samples. -/

namespace Budyk.Spec
open Lib Storage

inductive Entry (α : Type) where
  | direct (x : α)
  | folded (c : Coarse) (window : List α)

structure History (α : Type) where
  log : Leaf → List (Entry α)
  windows : Coarse → Tumbling α

namespace Entry
variable {α : Type}

def ts (stamp : α → Nat) : Entry α → Nat
  | .direct x => stamp x
  | .folded _ window => window.getLast?.elim 0 stamp

def window (c : Coarse) : Entry α → Option (List α)
  | .direct _ => none
  | .folded c' window => if c' = c then some window else none

end Entry

namespace History
variable {α : Type} (stamp : α → Nat) (width : Coarse → Nat)

def empty : History α := ⟨fun _ => [], fun _ => .empty⟩

/-- `ok` is whether the write succeeds: an entry that is not written is lost. -/
def write (h : History α) (leaf : Leaf) (e : Entry α) (ok : Bool) : History α :=
  if ok then { h with log := Function.update h.log leaf (h.log leaf ++ [e]) } else h

def setWindow (h : History α) (c : Coarse) (t : Tumbling α) : History α :=
  { h with windows := Function.update h.windows c t }

def flush (h : History α) (c : Coarse) (ok : Bool) : History α :=
  if (h.windows c).pending = [] then h
  else (h.setWindow c (h.windows c).cut).write c.leaf (.folded c (h.windows c).pending) ok

def push (h : History α) (c : Coarse) (x : α) : History α := h.setWindow c ((h.windows c).push x)

def feed (h : History α) (c : Coarse) (x : α) (ok : Bool) : History α :=
  if width c = 0 then h
  else if Tumbling.Outside stamp (width c) (h.windows c).pending x then (h.flush c ok).push c x
  else h.push c x

def foldWindow (h : History α) (c : Coarse) (own : Bool) (x : α) (ok : Bool) : History α :=
  -- A coarse ring's own level ends the window and is not folded into it.
  if own then h.flush c ok else h.feed stamp width c x ok

def store (h : History α) (target : Leaf) (own : Coarse → Bool) (x : α) (ok : Coarse → Bool)
    (direct : Bool) : History α :=
  ((h.foldWindow stamp width .l2 (own .l2) x (ok .l2)).foldWindow stamp width .l1 (own .l1) x
    (ok .l1)).write target (.direct x) direct

/-! ## How the steps change the logs and the windows -/

variable {stamp width} {h : History α} {c : Coarse} {x : α}

@[simp] theorem write_windows (leaf : Leaf) (e : Entry α) (ok : Bool) :
    (h.write leaf e ok).windows = h.windows := by
  cases ok <;> rfl

@[simp] theorem setWindow_log (t : Tumbling α) : (h.setWindow c t).log = h.log := rfl

theorem setWindow_windows (t : Tumbling α) (c' : Coarse) :
    (h.setWindow c t).windows c' = if c' = c then t else h.windows c' := Function.update_apply ..

@[simp] theorem push_log : (h.push c x).log = h.log := rfl

theorem write_log (leaf leaf' : Leaf) (e : Entry α) (ok : Bool) :
    (h.write leaf e ok).log leaf' = h.log leaf' ++ if ok ∧ leaf' = leaf then [e] else [] := by
  cases ok with
  | false => simp [write]
  | true =>
      by_cases same : leaf' = leaf
      · subst same
        simp [write]
      · simp [write, same]

theorem push_windows (c' : Coarse) :
    (h.push c x).windows c' = if c' = c then (h.windows c).push x else h.windows c' :=
  setWindow_windows _ c'

theorem flush_windows (ok : Bool) (c' : Coarse) :
    (h.flush c ok).windows c' = if c' = c then (h.windows c).cut else h.windows c' := by
  unfold flush
  split
  · rename_i none
    split
    · rename_i same
      rw [same, Tumbling.cut_of_nil none]
    · rfl
  · rw [write_windows, setWindow_windows]

theorem flush_log (ok : Bool) (leaf : Leaf) : (h.flush c ok).log leaf = h.log leaf ++
    if (h.windows c).pending ≠ [] ∧ ok ∧ leaf = c.leaf then [.folded c (h.windows c).pending] else [] := by
  unfold flush
  split
  · rename_i none
    simp [none]
  · rename_i some
    rw [write_log, setWindow_log]
    simp [some]

variable (stamp width) in
theorem foldWindow_cases (own : Bool) (ok : Bool) :
    (h.foldWindow stamp width c own x ok = h ∧ own = false ∧ width c = 0) ∨
    (h.foldWindow stamp width c own x ok = h.flush c ok ∧ own = true) ∨
    (h.foldWindow stamp width c own x ok = h.push c x ∧ own = false ∧ width c ≠ 0 ∧
      ¬Tumbling.Outside stamp (width c) (h.windows c).pending x) ∨
    (h.foldWindow stamp width c own x ok = (h.flush c ok).push c x ∧ own = false ∧ width c ≠ 0 ∧
      Tumbling.Outside stamp (width c) (h.windows c).pending x) := by
  cases own with
  | true => exact Or.inr (Or.inl ⟨rfl, rfl⟩)
  | false =>
      by_cases off : width c = 0
      · exact Or.inl ⟨by simp [foldWindow, feed, off], rfl, off⟩
      · by_cases outside : Tumbling.Outside stamp (width c) (h.windows c).pending x
        · exact Or.inr (Or.inr (Or.inr ⟨by simp [foldWindow, feed, off, outside], rfl, off, outside⟩))
        · exact Or.inr (Or.inr (Or.inl ⟨by simp [foldWindow, feed, off, outside], rfl, off, outside⟩))

/-! ## Time order -/

section Order
variable (stamp) in
/-- Every log is in time order up to `latest`, and no pending item is older than what its ring has. -/
structure Chronological (h : History α) (latest : Nat) : Prop where
  sorted : ∀ leaf, (h.log leaf).Pairwise fun e e' => e.ts stamp ≤ e'.ts stamp
  past : ∀ leaf, ∀ e ∈ h.log leaf, e.ts stamp ≤ latest
  pending_past : ∀ c, ∀ x ∈ (h.windows c).pending, stamp x ≤ latest
  ahead : ∀ c, ∀ e ∈ h.log c.leaf, ∀ x ∈ (h.windows c).pending, e.ts stamp ≤ stamp x

variable {latest : Nat}

theorem Chronological.later (chronological : h.Chronological stamp latest) {now : Nat}
    (le : latest ≤ now) : h.Chronological stamp now :=
  { chronological with
    past := fun leaf e member => (chronological.past leaf e member).trans le
    pending_past := fun c x member => (chronological.pending_past c x member).trans le }

theorem Chronological.write (chronological : h.Chronological stamp latest) {leaf : Leaf} {e : Entry α}
    (ok : Bool) (newest : ∀ e' ∈ h.log leaf, e'.ts stamp ≤ e.ts stamp) (past : e.ts stamp ≤ latest)
    (behind : ∀ c, leaf = c.leaf → ∀ x ∈ (h.windows c).pending, e.ts stamp ≤ stamp x) :
    (h.write leaf e ok).Chronological stamp latest := by
  cases ok with
  | false => exact chronological
  | true =>
      have log (leaf' : Leaf) := h.write_log leaf leaf' e true
      refine ⟨fun leaf' => ?_, fun leaf' e' member => ?_, ?_, fun c e' member x pending => ?_⟩
      · rw [log]
        by_cases same : leaf' = leaf
        · subst same
          simp only [and_self, if_true]
          rw [List.pairwise_append]
          refine ⟨chronological.sorted leaf', List.pairwise_singleton _ _, ?_⟩
          intro e' old e'' new
          rw [List.mem_singleton.mp new]
          exact newest e' old
        · simpa [same] using chronological.sorted leaf'
      · rw [log, List.mem_append] at member
        rcases member with old | new
        · exact chronological.past leaf' e' old
        · split at new
          · rw [List.mem_singleton.mp new]
            exact past
          · cases new
      · rw [write_windows]
        exact chronological.pending_past
      · rw [write_windows] at pending
        rw [log, List.mem_append] at member
        rcases member with old | new
        · exact chronological.ahead c e' old x pending
        · split at new
          · rename_i here
            rw [List.mem_singleton.mp new]
            exact behind c here.2.symm x pending
          · cases new

theorem Chronological.setWindow (chronological : h.Chronological stamp latest) (t : Tumbling α)
    (past : ∀ x ∈ t.pending, stamp x ≤ latest)
    (ahead : ∀ e ∈ h.log c.leaf, ∀ x ∈ t.pending, e.ts stamp ≤ stamp x) :
    (h.setWindow c t).Chronological stamp latest := by
  refine ⟨chronological.sorted, chronological.past, fun c' x pending => ?_, fun c' e member x pending => ?_⟩
  · rw [setWindow_windows] at pending
    split at pending
    · exact past x pending
    · exact chronological.pending_past c' x pending
  · rw [setWindow_windows] at pending
    split at pending
    · rename_i same
      subst same
      exact ahead e member x pending
    · exact chronological.ahead c' e member x pending

theorem ts_folded {window : List α} {last : α} (ends : window.getLast? = some last) :
    (Entry.folded c window).ts stamp = stamp last := by
  rw [Entry.ts, ends]
  rfl

theorem coarse_leaf_inj {c c' : Coarse} (same : c.leaf = c'.leaf) : c = c' := by
  cases c <;> cases c' <;> first | rfl | cases same

theorem Chronological.flush (chronological : h.Chronological stamp latest) (ok : Bool) :
    (h.flush c ok).Chronological stamp latest := by
  unfold History.flush
  split
  · exact chronological
  · rename_i some
    have cut : (h.setWindow c (h.windows c).cut).Chronological stamp latest :=
      chronological.setWindow _ (by simp) (by simp)
    obtain ⟨last, ends⟩ := Option.ne_none_iff_exists'.mp (mt List.getLast?_eq_none_iff.mp some)
    have member := List.mem_of_getLast? ends
    refine cut.write ok ?_ ?_ ?_
    · intro e old
      rw [ts_folded ends]
      exact chronological.ahead c e old last member
    · rw [ts_folded ends]
      exact chronological.pending_past c last member
    · intro c' same x pending
      rw [coarse_leaf_inj same] at pending
      rw [setWindow_windows, if_pos rfl, Tumbling.cut_pending] at pending
      cases pending

theorem Chronological.push (chronological : h.Chronological stamp latest) (newest : stamp x = latest) :
    (h.push c x).Chronological stamp latest := by
  refine chronological.setWindow _ (fun y pending => ?_) (fun e member y pending => ?_)
  · simp only [Tumbling.push, List.mem_append, List.mem_singleton] at pending
    rcases pending with old | rfl
    · exact chronological.pending_past c y old
    · exact newest.le
  · simp only [Tumbling.push, List.mem_append, List.mem_singleton] at pending
    rcases pending with old | rfl
    · exact chronological.ahead c e member y old
    · exact newest ▸ chronological.past c.leaf e member

theorem Chronological.foldWindow (chronological : h.Chronological stamp latest) (newest : stamp x = latest)
    (own ok : Bool) : (h.foldWindow stamp width c own x ok).Chronological stamp latest := by
  rcases h.foldWindow_cases stamp width own ok with ⟨same, -⟩ | ⟨same, -⟩ | ⟨same, -⟩ | ⟨same, -⟩
  · rwa [same]
  · rw [same]
    exact chronological.flush ok
  · rw [same]
    exact chronological.push newest
  · rw [same]
    exact (chronological.flush ok).push newest

theorem foldWindow_own_pending (ok : Bool) :
    ((h.foldWindow stamp width c true x ok).windows c).pending = [] := by
  rw [History.foldWindow, if_pos rfl, flush_windows, if_pos rfl, Tumbling.cut_pending]

theorem foldWindow_windows_ne (own ok : Bool) {c' : Coarse} (other : c' ≠ c) :
    (h.foldWindow stamp width c own x ok).windows c' = h.windows c' := by
  rcases h.foldWindow_cases stamp width own ok with ⟨same, -⟩ | ⟨same, -⟩ | ⟨same, -⟩ | ⟨same, -⟩
  · rw [same]
  · rw [same, flush_windows, if_neg other]
  · rw [same, push_windows, if_neg other]
  · rw [same, push_windows, if_neg other, flush_windows, if_neg other]

theorem Chronological.store (chronological : h.Chronological stamp latest) {target : Leaf}
    {own : Coarse → Bool} (newest : latest ≤ stamp x) (ok : Coarse → Bool) (direct : Bool)
    (ends : ∀ c : Coarse, target = c.leaf → own c = true) :
    (h.store stamp width target own x ok direct).Chronological stamp (stamp x) := by
  have first : (h.foldWindow stamp width .l2 (own .l2) x (ok .l2)).Chronological stamp (stamp x) :=
    (chronological.later newest).foldWindow rfl _ _
  have folded : ((h.foldWindow stamp width .l2 (own .l2) x (ok .l2)).foldWindow stamp width .l1 (own .l1) x
      (ok .l1)).Chronological stamp (stamp x) := first.foldWindow rfl _ _
  refine folded.write direct (folded.past target) le_rfl ?_
  rintro c same y pending
  have own' := ends c same
  cases c with
  | l2 =>
      rw [foldWindow_windows_ne _ _ (by decide), own', foldWindow_own_pending] at pending
      cases pending
  | l1 =>
      rw [own', foldWindow_own_pending] at pending
      cases pending

end Order

/-! ## What the entries are made of -/

/-- A direct entry is of its ring, and a folded one is a window of its ring. -/
structure Sound (ofRing : Leaf → α → Prop) (ofWindow : Coarse → List α → Prop) (h : History α) :
    Prop where
  direct : ∀ leaf x, Entry.direct x ∈ h.log leaf → ofRing leaf x
  folded : ∀ leaf c window, Entry.folded c window ∈ h.log leaf →
    leaf = c.leaf ∧ window ≠ [] ∧ ofWindow c window
  pending : ∀ c, ofWindow c (h.windows c).pending

section Sound
variable {ofRing : Leaf → α → Prop} {ofWindow : Coarse → List α → Prop}

theorem Sound.weaken {ofWindow' : Coarse → List α → Prop} (sound : h.Sound ofRing ofWindow)
    (weaker : ∀ c window, ofWindow c window → ofWindow' c window) : h.Sound ofRing ofWindow' where
  direct := sound.direct
  folded := fun leaf c window member =>
    have ⟨place, nonempty, made⟩ := sound.folded leaf c window member
    ⟨place, nonempty, weaker c window made⟩
  pending := fun c => weaker c _ (sound.pending c)

theorem Sound.write (sound : h.Sound ofRing ofWindow) {leaf : Leaf} {e : Entry α} (ok : Bool)
    (direct : ∀ x, e = .direct x → ofRing leaf x)
    (folded : ∀ c window, e = .folded c window → leaf = c.leaf ∧ window ≠ [] ∧ ofWindow c window) :
    (h.write leaf e ok).Sound ofRing ofWindow := by
  have member {leaf' : Leaf} {e' : Entry α} (new : e' ∈ (h.write leaf e ok).log leaf') :
      e' ∈ h.log leaf' ∨ e' = e ∧ leaf' = leaf := by
    rw [write_log, List.mem_append] at new
    rcases new with old | new
    · exact Or.inl old
    · split at new
      · rename_i here
        exact Or.inr ⟨List.mem_singleton.mp new, here.2⟩
      · cases new
  refine ⟨fun leaf' x new => ?_, fun leaf' c window new => ?_, ?_⟩
  · rcases member new with old | ⟨same, rfl⟩
    · exact sound.direct leaf' x old
    · exact direct x same.symm
  · rcases member new with old | ⟨same, rfl⟩
    · exact sound.folded leaf' c window old
    · exact folded c window same.symm
  · rw [write_windows]
    exact sound.pending

theorem Sound.setWindow (sound : h.Sound ofRing ofWindow) (t : Tumbling α)
    (pending : ofWindow c t.pending) : (h.setWindow c t).Sound ofRing ofWindow := by
  refine ⟨sound.direct, sound.folded, fun c' => ?_⟩
  rw [setWindow_windows]
  split
  · rename_i same
    rw [same]
    exact pending
  · exact sound.pending c'

theorem Sound.flush (sound : h.Sound ofRing ofWindow) (nil : ofWindow c []) (ok : Bool) :
    (h.flush c ok).Sound ofRing ofWindow := by
  unfold History.flush
  split
  · exact sound
  · rename_i some
    have cut := sound.setWindow (h.windows c).cut (by rwa [Tumbling.cut_pending])
    refine cut.write ok (fun x same => by cases same) (fun c' window same => ?_)
    cases same
    exact ⟨rfl, some, sound.pending c⟩

theorem Sound.foldWindow (sound : h.Sound ofRing ofWindow) (nil : ofWindow c []) (own ok : Bool)
    (join : own = false → width c ≠ 0 → ∀ window, ofWindow c window →
      ¬Tumbling.Outside stamp (width c) window x → ofWindow c (window ++ [x])) :
    (h.foldWindow stamp width c own x ok).Sound ofRing ofWindow := by
  rcases h.foldWindow_cases stamp width own ok with ⟨same, -⟩ | ⟨same, -⟩ | ⟨same, finer, on, inside⟩ |
    ⟨same, finer, on, -⟩
  · rwa [same]
  · rw [same]
    exact sound.flush nil ok
  · rw [same]
    exact sound.setWindow _ (join finer on _ (sound.pending c) inside)
  · rw [same]
    have flushed := sound.flush nil ok
    refine flushed.setWindow _ (join finer on _ (flushed.pending c) ?_)
    rw [flush_windows, if_pos rfl]
    exact Tumbling.not_outside_of_nil Tumbling.cut_pending

theorem Sound.store (sound : h.Sound ofRing ofWindow) {target : Leaf} {own : Coarse → Bool}
    (nil : ∀ c, ofWindow c []) (ok : Coarse → Bool) (direct : Bool) (placed : ofRing target x)
    (join : ∀ c, own c = false → width c ≠ 0 → ∀ window, ofWindow c window →
      ¬Tumbling.Outside stamp (width c) window x → ofWindow c (window ++ [x])) :
    (h.store stamp width target own x ok direct).Sound ofRing ofWindow := by
  refine Sound.write ((sound.foldWindow (nil .l2) _ _ (join .l2)).foldWindow (nil .l1) _ _ (join .l1))
    direct (fun y same => ?_) (fun c window same => by cases same)
  cases same
  exact placed

end Sound

/-! ## Conservation -/

/-- Where every write succeeds, the folded entries of a ring are the windows that were closed. -/
structure Conserved (fed : Coarse → List α) (h : History α) : Prop where
  closed : ∀ c : Coarse, (h.log c.leaf).filterMap (Entry.window c) = (h.windows c).closed
  all : ∀ c, (h.windows c).all = fed c

section Conserved
variable {fed : Coarse → List α}

theorem Conserved.writeDirect (conserved : h.Conserved fed) (leaf : Leaf) :
    (h.write leaf (.direct x) true).Conserved fed := by
  refine ⟨fun c => ?_, fun c => by rw [write_windows]; exact conserved.all c⟩
  rw [write_log, List.filterMap_append, write_windows, conserved.closed]
  split <;> simp [Entry.window]

theorem Conserved.flush (conserved : h.Conserved fed) : (h.flush c true).Conserved fed := by
  refine ⟨fun c' => ?_, fun c' => ?_⟩
  · rw [flush_log, flush_windows, List.filterMap_append, conserved.closed]
    by_cases same : c' = c
    · subst same
      rw [if_pos rfl]
      by_cases none : (h.windows c').pending = []
      · rw [Tumbling.cut_of_nil none]
        simp [none]
      · rw [Tumbling.cut_of_ne_nil none]
        simp [none, Entry.window]
    · have other : ¬((h.windows c).pending ≠ [] ∧ true = true ∧ c'.leaf = c.leaf) :=
        fun both => same (coarse_leaf_inj both.2.2)
      rw [if_neg same, if_neg other]
      simp
  · rw [flush_windows]
    split
    · rename_i same
      rw [same, Tumbling.cut_all]
      exact conserved.all c
    · exact conserved.all c'

theorem Conserved.push (conserved : h.Conserved fed) :
    (h.push c x).Conserved (Function.update fed c (fed c ++ [x])) := by
  refine ⟨fun c' => ?_, fun c' => ?_⟩
  · rw [push_log, push_windows, conserved.closed]
    split
    · rename_i same
      rw [same]
      rfl
    · rfl
  · rw [push_windows, Function.update_apply]
    split
    · rw [Tumbling.push_all, conserved.all]
    · exact conserved.all c'

theorem Conserved.foldWindow (conserved : h.Conserved fed) (positive : 0 < width c) (own : Bool) :
    (h.foldWindow stamp width c own x true).Conserved
      (if own then fed else Function.update fed c (fed c ++ [x])) := by
  rcases h.foldWindow_cases stamp width (c := c) (x := x) own true with ⟨-, -, off⟩ | ⟨same, ends⟩ | ⟨same, finer, -⟩ | ⟨same, finer, -⟩
  · omega
  · rw [same, ends]
    exact conserved.flush
  · rw [same, finer]
    exact conserved.push
  · rw [same, finer]
    exact conserved.flush.push

theorem Conserved.store (conserved : h.Conserved fed) (positive : ∀ c, 0 < width c) (target : Leaf)
    (own : Coarse → Bool) :
    (h.store stamp width target own x (fun _ => true) true).Conserved
      fun c => fed c ++ if own c then [] else [x] := by
  have first : (h.foldWindow stamp width .l2 (own .l2) x true).Conserved _ :=
    conserved.foldWindow (positive .l2) (own .l2)
  have second : ((h.foldWindow stamp width .l2 (own .l2) x true).foldWindow stamp width .l1 (own .l1) x
      true).Conserved _ := first.foldWindow (positive .l1) (own .l1)
  have folded := second.writeDirect (x := x) target
  refine ⟨folded.closed, fun c => (folded.all c).trans ?_⟩
  cases c <;> cases own .l2 <;> cases own .l1 <;> simp

theorem Conserved.flatten (conserved : h.Conserved fed) (c : Coarse) (done : (h.windows c).pending = []) :
    ((h.log c.leaf).filterMap (Entry.window c)).flatten = fed c := by
  rw [conserved.closed, ← conserved.all c, Tumbling.all, done, List.append_nil]

end Conserved

end History

end Budyk.Spec
