import Budyk.Lib.Along
import Budyk.Proof.SessionFile
import Budyk.Web.SessionThreads

namespace Budyk.Proof
open Lib Web SessionThreads

/-! What one event does. -/

inductive Moves (s : SessionThreads) : SessionEvent → SessionThreads → Prop where
  | stays (event : SessionEvent) : Moves s event s
  | clock (now : Nat) : Moves s (.clock now) { s with clock := max s.clock now }
  | call (i : Nat) (action : SessionAction) (idle : s.phase i = .idle) (fresh : ∀ tok ∈ action.minted, tok ∉ s.issued) :
      Moves s (.call i action) { s.moved i (.called action s.clock) with issued := action.minted ++ s.issued }
  | table (i : Nat) (action : SessionAction) (now : Nat) (called : s.phase i = .called action now) :
      Moves s (.table i)
        { s.moved i (if (action.section_ s.store now).2 then .saving action .changed else .idle) with
          store := (action.section_ s.store now).1 }
  | path (i : Nat) (action : SessionAction) (changed : s.phase i = .saving action .changed) :
      Moves s (.path i) (s.moved i (.saving action .path))
  | lock (i : Nat) (action : SessionAction) (path : s.phase i = .saving action .path) (free : s.saver = none) :
      Moves s (.lock i) { s.moved i (.saving action .locked) with saver := some i }
  | snapshot (i : Nat) (action : SessionAction) (locked : s.phase i = .saving action .locked) :
      Moves s (.snapshot i) (s.moved i (.saving action (.snapped ⟨s.store.credential, s.store.deadline⟩)))
  | write (i : Nat) (ok : Bool) (action : SessionAction) (snap : SavedFile)
      (snapped : s.phase i = .saving action (.snapped snap)) :
      Moves s (.write i ok)
        { s.moved i .idle with
          saver := none
          file := if ok then some snap else s.file
          lastSave := some ok }

theorem moves_step (s : SessionThreads) (event : SessionEvent) : Moves s event (s.step event) := by
  cases event with
  | clock now => exact .clock now
  | call i action =>
      unfold step
      dsimp only
      split
      next idle =>
        split
        · exact .stays _
        next fresh =>
          apply Moves.call i action idle
          intro tok held known
          exact fresh ⟨tok, held, known⟩
      · exact .stays _
  | table i =>
      unfold step
      dsimp only
      split
      next action now called => exact .table i action now called
      · exact .stays _
  | path i =>
      unfold step
      dsimp only
      split
      next action changed => exact .path i action changed
      · exact .stays _
  | lock i =>
      unfold step
      dsimp only
      split
      next action path free => exact .lock i action path free
      · exact .stays _
  | snapshot i =>
      unfold step
      dsimp only
      split
      next action locked => exact .snapshot i action locked
      · exact .stays _
  | write i ok =>
      unfold step
      dsimp only
      split
      next action snap snapped => exact .write i ok action snap snapped
      · exact .stays _

theorem moved_phase (s : SessionThreads) (i : Nat) (phase : SessionPhase) (j : Nat) :
    (s.moved i phase).phase j = if j = i then phase else s.phase j := Function.update_apply _ _ _ _

theorem phase_moved {s : SessionThreads} {i j : Nat} {new phase : SessionPhase} (placed : (s.moved i new).phase j = phase) :
    (j = i ∧ new = phase) ∨ (j ≠ i ∧ s.phase j = phase) := by
  rw [moved_phase] at placed
  split at placed
  next same => exact .inl ⟨same, placed⟩
  next other => exact .inr ⟨other, placed⟩

/-! The section that changes the table. -/

theorem section_mem {s : SessionStore} {now : Nat} {action : SessionAction} {tok : Token}
    (held : tok ∈ (action.section_ s now).1.deadline) : tok ∈ s.deadline ∨ tok ∈ action.minted := by
  cases action with
  | create random =>
      unfold SessionAction.section_ SessionStore.create at held
      dsimp only at held
      unfold SessionAction.minted
      dsimp only
      split at held
      · exact .inl held
      next named =>
        rw [if_neg named, List.mem_singleton]
        exact (AList.mem_insert _).mp held |>.symm
  | verify other => exact .inl (mem_verify held)
  | touch other => exact .inl (mem_touch held)
  | revoke other => exact .inl (AList.mem_erase.mp held).2
  | purgeExpired =>
      left
      unfold SessionAction.section_ at held
      rw [← AList.lookup_isSome, lookup_purgeExpired, Option.isSome_iff_exists] at held
      obtain ⟨d, kept⟩ := held
      exact mem_deadline (Option.mem_filter_iff.mp kept).1

theorem section_credential (s : SessionStore) (now : Nat) (action : SessionAction) :
    (action.section_ s now).1.credential = s.credential := by
  cases action with
  | create random =>
      have same := congrArg SessionStore.credential (apply_eq s ⟨now, .create random⟩)
      exact same
  | verify tok =>
      have same := congrArg SessionStore.credential (apply_eq s ⟨now, .verify tok⟩)
      exact same
  | touch tok =>
      have same := congrArg SessionStore.credential (apply_eq s ⟨now, .touch tok⟩)
      exact same
  | revoke tok => rfl
  | purgeExpired => rfl

/-- The same sessions have yet to expire, at the same deadlines. -/
def Agree (clock : Nat) (first second : Sessions) : Prop :=
  ∀ tok d, clock < d → (d ∈ first.lookup tok ↔ d ∈ second.lookup tok)

theorem Agree.trans {clock : Nat} {first second third : Sessions} (one : Agree clock first second)
    (two : Agree clock second third) : Agree clock first third :=
  fun tok d live => (one tok d live).trans (two tok d live)

theorem Agree.later {clock now : Nat} {first second : Sessions} (agree : Agree clock first second) (later : clock ≤ now) :
    Agree now first second := fun tok d live => agree tok d (Nat.lt_of_le_of_lt later live)

/-- The cap of `verify` changes nothing. -/
def Uncapped (s : SessionThreads) (event : SessionEvent) : Prop :=
  ∀ i tok now, event = .table i → s.phase i = .called (.verify tok) now →
    ∀ d ∈ s.store.deadline.lookup tok, d ≤ now + s.store.ttlNs

theorem section_agrees {s : SessionStore} {now clock : Nat} {action : SessionAction} (past : now ≤ clock)
    (unsaved : (action.section_ s now).2 = false)
    (uncapped : ∀ tok, action = .verify tok → ∀ d ∈ s.deadline.lookup tok, d ≤ now + s.ttlNs) :
    Agree clock s.deadline (action.section_ s now).1.deadline := by
  intro tok d live
  cases action with
  | create random =>
      unfold SessionAction.section_ at unsaved ⊢
      simp only [ne_eq, decide_not, Bool.not_eq_false', decide_eq_true_eq] at unsaved
      dsimp only
      rw [SessionStore.create, if_pos unsaved]
  | verify other =>
      unfold SessionAction.section_ SessionStore.verify at unsaved ⊢
      dsimp only at unsaved ⊢
      split
      · rfl
      next named =>
        rw [if_neg named] at unsaved
        split
        · rfl
        next d' present =>
          simp only [present] at unsaved
          split
          next expired =>
            rw [if_pos expired] at unsaved
            cases unsaved
          next => rw [if_neg (Nat.not_lt_of_le (uncapped other rfl d' present))]
  | touch other =>
      unfold SessionAction.section_ SessionStore.touch at unsaved ⊢
      dsimp only at unsaved ⊢
      split
      · rfl
      next named =>
        rw [if_neg named] at unsaved
        split
        · rfl
        next d' present =>
          simp only [present] at unsaved
          split
          next expired =>
            rw [if_pos expired] at unsaved
            cases unsaved
          next unexpired =>
            rw [if_neg unexpired] at unsaved
            split
            next slides =>
              rw [if_pos slides] at unsaved
              cases unsaved
            next => rfl
  | revoke other =>
      unfold SessionAction.section_ SessionStore.revoke at unsaved ⊢
      rw [Option.isSome_eq_false_iff, Option.isNone_iff_eq_none] at unsaved
      dsimp only
      rw [lookup_erase_of]
      split
      next same => rw [same, unsaved]
      next => rfl
  | purgeExpired =>
      unfold SessionAction.section_
      dsimp only
      rw [lookup_purgeExpired, Option.mem_filter_iff]
      have later : now < d := Nat.lt_of_le_of_lt past live
      simp [later]

/-! What every event keeps. -/

def SavingNow : SessionPhase → Prop
  | .saving _ .locked | .saving _ (.snapped _) => True
  | _ => False

/-- The thread has changed the table and is yet to take its snapshot. -/
def Unsaved : SessionPhase → Prop
  | .saving _ .changed | .saving _ .path | .saving _ .locked => True
  | _ => False

structure Minted (s : SessionThreads) : Prop where
  table : ∀ tok ∈ s.store.deadline, tok ∈ s.issued
  pending : ∀ i action now, s.phase i = .called action now →
    ∀ tok ∈ action.minted, tok ∈ s.issued ∧ tok ∉ s.store.deadline
  apart : ∀ i j a b now now', s.phase i = .called a now → s.phase j = .called b now' →
    ∀ tok ∈ a.minted, tok ∈ b.minted → i = j

theorem called_before {s : SessionThreads} {i j : Nat} {new : SessionPhase} {a : SessionAction} {t : Nat}
    (other : ∀ a t, new ≠ .called a t) (called : (s.moved i new).phase j = .called a t) :
    j ≠ i ∧ s.phase j = .called a t := by
  rcases phase_moved called with ⟨-, same⟩ | before
  · exact absurd same (other a t)
  · exact before

theorem Minted.moved {s s' : SessionThreads} (minted : Minted s) {i : Nat} {new : SessionPhase}
    (other : ∀ a t, new ≠ .called a t) (phase : s'.phase = (s.moved i new).phase)
    (issued : s'.issued = s.issued) (store : s'.store = s.store) : Minted s' := by
  have still : ∀ j a t, s'.phase j = .called a t → s.phase j = .called a t := by
    intro j a t called
    rw [phase] at called
    exact (called_before other called).2
  refine ⟨?_, ?_, ?_⟩
  · rw [issued, store]
    exact minted.table
  · rw [issued, store]
    intro j a t called
    exact minted.pending j a t (still j a t called)
  · intro j k a b t t' first second
    exact minted.apart j k a b t t' (still j a t first) (still k b t' second)

theorem minted_step {s s' : SessionThreads} {event : SessionEvent} (minted : Minted s) (moves : Moves s event s') :
    Minted s' := by
  cases moves with
  | stays | clock now => exact ⟨minted.table, minted.pending, minted.apart⟩
  | call i action idle fresh =>
      refine ⟨fun tok held => List.mem_append_right _ (minted.table tok held), ?_, ?_⟩
      · intro j a now called tok held
        rcases phase_moved called with ⟨rfl, same⟩ | ⟨other, before⟩
        · cases same
          exact ⟨List.mem_append_left _ held, fun known => fresh tok held (minted.table tok known)⟩
        · obtain ⟨known, absent⟩ := minted.pending j a now before tok held
          exact ⟨List.mem_append_right _ known, absent⟩
      · intro j k a b now now' first second tok held held'
        rcases phase_moved first with ⟨rfl, same⟩ | ⟨other, before⟩
        · cases same
          rcases phase_moved second with ⟨rfl, same⟩ | ⟨other, before⟩
          · rfl
          · exact absurd (minted.pending k b now' before tok held').1 (fresh tok held)
        · rcases phase_moved second with ⟨rfl, same⟩ | ⟨other', before'⟩
          · cases same
            exact absurd (minted.pending j a now before tok held).1 (fresh tok held')
          · exact minted.apart j k a b now now' before before' tok held held'
  | table i action now called =>
      have other : ∀ a t, (if (action.section_ s.store now).2 then SessionPhase.saving action .changed else .idle) ≠
          .called a t := by
        intro a t
        split <;> simp
      refine ⟨?_, ?_, ?_⟩
      · intro tok held
        rcases section_mem held with before | made
        · exact minted.table tok before
        · exact (minted.pending i action now called tok made).1
      · intro j a t called' tok held
        obtain ⟨apart, before⟩ := called_before other called'
        obtain ⟨known, absent⟩ := minted.pending j a t before tok held
        refine ⟨known, ?_⟩
        intro now_
        rcases section_mem now_ with was | made
        · exact absent was
        · exact apart (minted.apart j i a action t now before called tok held made)
      · intro j k a b t t' first second
        exact minted.apart j k a b t t' (called_before other first).2 (called_before other second).2
  | path | lock | snapshot | write => exact minted.moved (by simp) rfl rfl rfl

structure Serial (s : SessionThreads) : Prop where
  holds : ∀ i, SavingNow (s.phase i) → s.saver = some i

theorem savingNow_moved {s : SessionThreads} {i j : Nat} {new : SessionPhase} (saving : SavingNow ((s.moved i new).phase j)) :
    (j = i ∧ SavingNow new) ∨ (j ≠ i ∧ SavingNow (s.phase j)) := by
  rw [moved_phase] at saving
  split at saving
  next same => exact .inl ⟨same, saving⟩
  next other => exact .inr ⟨other, saving⟩

theorem serial_step {s s' : SessionThreads} {event : SessionEvent} (serial : Serial s) (moves : Moves s event s') :
    Serial s' := by
  constructor
  intro j saving
  cases moves with
  | stays | clock => exact serial.holds j saving
  | call | path =>
      rcases savingNow_moved saving with ⟨-, none⟩ | ⟨-, before⟩
      · cases none
      · exact serial.holds j before
  | table i action now called =>
      rcases savingNow_moved saving with ⟨-, none⟩ | ⟨-, before⟩
      · split at none <;> cases none
      · exact serial.holds j before
  | lock i action path free =>
      rcases savingNow_moved saving with ⟨rfl, -⟩ | ⟨-, before⟩
      · rfl
      · rw [serial.holds j before] at free
        cases free
  | snapshot i action locked =>
      rcases savingNow_moved saving with ⟨rfl, -⟩ | ⟨-, before⟩
      · exact serial.holds j (by rw [locked]; trivial)
      · exact serial.holds j before
  | write i ok action snap snapped =>
      rcases savingNow_moved saving with ⟨-, none⟩ | ⟨other, before⟩
      · cases none
      · have holder := serial.holds i (by rw [snapped]; trivial)
        rw [serial.holds j before, Option.some.injEq] at holder
        exact absurd holder other

theorem Serial.alone {s : SessionThreads} (serial : Serial s) {i j : Nat} (first : SavingNow (s.phase i))
    (second : SavingNow (s.phase j)) : j = i := by
  have holder := serial.holds i first
  rw [serial.holds j second] at holder
  exact Option.some.inj holder

/-! The file against the table. -/

structure Current (s : SessionThreads) : Prop where
  past : ∀ i action now, s.phase i = .called action now → now ≤ s.clock
  snapped : ∀ i action snap, s.phase i = .saving action (.snapped snap) →
    (∃ j, Unsaved (s.phase j)) ∨ Agree s.clock snap.table s.store.deadline
  file : (∃ i action snap, s.phase i = .saving action (.snapped snap)) ∨ (∃ j, Unsaved (s.phase j)) ∨
    s.lastSave ≠ some true ∨ ∃ file ∈ s.file, Agree s.clock file.table s.store.deadline

theorem unsaved_moved {s : SessionThreads} {i : Nat} {new : SessionPhase} (unsaved : ∃ j, Unsaved (s.phase j))
    (kept : Unsaved (s.phase i) → Unsaved new) : ∃ j, Unsaved ((s.moved i new).phase j) := by
  obtain ⟨j, waits⟩ := unsaved
  refine ⟨j, ?_⟩
  rw [moved_phase]
  split
  next same =>
    rw [same] at waits
    exact kept waits
  next => exact waits

theorem snapped_moved {s : SessionThreads} {i : Nat} {new : SessionPhase} (was : ∀ a snap, s.phase i ≠ .saving a (.snapped snap))
    (saving : ∃ j a snap, s.phase j = .saving a (.snapped snap)) :
    ∃ j a snap, (s.moved i new).phase j = .saving a (.snapped snap) := by
  obtain ⟨j, a, snap, placed⟩ := saving
  refine ⟨j, a, snap, ?_⟩
  rw [moved_phase, if_neg]
  · exact placed
  · rintro rfl
    exact was a snap placed

theorem Current.moved {s s' : SessionThreads} (current : Current s) {i : Nat} {new : SessionPhase}
    (phase : s'.phase = (s.moved i new).phase) (store : s'.store = s.store) (clock : s'.clock = s.clock)
    (file : s'.file = s.file) (lastSave : s'.lastSave = s.lastSave) (past : ∀ a t, new = .called a t → t ≤ s.clock)
    (plain : ∀ a snap, new ≠ .saving a (.snapped snap)) (was : ∀ a snap, s.phase i ≠ .saving a (.snapped snap))
    (kept : Unsaved (s.phase i) → Unsaved new) : Current s' := by
  constructor
  · intro j action t called
    rw [phase] at called
    rw [clock]
    rcases phase_moved called with ⟨-, same⟩ | ⟨-, before⟩
    · exact past action t same
    · exact current.past j action t before
  · intro j action snap snapped
    rw [phase] at snapped
    rw [phase, store, clock]
    rcases phase_moved snapped with ⟨-, same⟩ | ⟨-, before⟩
    · exact absurd same (plain action snap)
    · exact (current.snapped j action snap before).imp_left fun unsaved => unsaved_moved unsaved kept
  · rw [phase, store, clock, file, lastSave]
    exact current.file.imp (snapped_moved was) (Or.imp_left fun unsaved => unsaved_moved unsaved kept)

theorem current_step {s s' : SessionThreads} {event : SessionEvent} (current : Current s) (serial : Serial s)
    (uncapped : Uncapped s event) (moves : Moves s event s') : Current s' := by
  cases moves with
  | stays => exact current
  | clock now =>
      have later := Nat.le_max_left s.clock now
      refine ⟨?_, ?_, ?_⟩
      · intro i action t called
        exact (current.past i action t called).trans later
      · intro i action snap snapped
        exact (current.snapped i action snap snapped).imp_right fun agree => agree.later later
      · rcases current.file with saving | unsaved | failed | ⟨file, saved, agree⟩
        · exact .inl saving
        · exact .inr (.inl unsaved)
        · exact .inr (.inr (.inl failed))
        · exact .inr (.inr (.inr ⟨file, saved, agree.later later⟩))
  | call i action idle fresh =>
      refine current.moved (show _ = (s.moved i (.called action s.clock)).phase from rfl) rfl rfl rfl rfl ?_ ?_ ?_ ?_
      · intro a t same
        cases same
        exact le_rfl
      · simp
      · simp [idle]
      · simp [idle, Unsaved]
  | path i action changed =>
      apply current.moved rfl rfl rfl rfl rfl
      · simp
      · simp
      · simp [changed]
      · exact fun _ => trivial
  | lock i action path free =>
      refine current.moved (show _ = (s.moved i (.saving action .locked)).phase from rfl) rfl rfl rfl rfl ?_ ?_ ?_ ?_
      · simp
      · simp
      · simp [path]
      · exact fun _ => trivial
  | table i action now called =>
      have past : ∀ new : SessionPhase, (∀ a t, new ≠ .called a t) → ∀ j a t, (s.moved i new).phase j = .called a t →
          t ≤ s.clock := by
        intro new other j a t called'
        exact current.past j a t (called_before other called').2
      by_cases saves : (action.section_ s.store now).2 = true
      · simp only [saves, if_true]
        have unsaved : ∃ j, Unsaved ((s.moved i (.saving action .changed)).phase j) :=
          ⟨i, by rw [moved_phase, if_pos rfl]; trivial⟩
        exact ⟨past _ (by simp), fun j a snap snapped => .inl unsaved, .inr (.inl unsaved)⟩
      · simp only [saves, Bool.false_eq_true, if_false]
        have idle : Unsaved (s.phase i) → Unsaved .idle := by simp [called, Unsaved]
        have agrees : Agree s.clock s.store.deadline (action.section_ s.store now).1.deadline := by
          apply section_agrees (current.past i action now called) (Bool.eq_false_iff.mpr saves)
          intro tok verifies
          exact uncapped i tok now rfl (by rw [called, verifies])
        refine ⟨past _ (by simp), ?_, ?_⟩
        · intro j a snap snapped
          rcases phase_moved snapped with ⟨-, none⟩ | ⟨-, before⟩
          · cases none
          · rcases current.snapped j a snap before with unsaved | agree
            · exact .inl (unsaved_moved unsaved idle)
            · exact .inr (agree.trans agrees)
        · rcases current.file with saving | unsaved | failed | ⟨file, saved, agree⟩
          · exact .inl (snapped_moved (by simp [called]) saving)
          · exact .inr (.inl (unsaved_moved unsaved idle))
          · exact .inr (.inr (.inl failed))
          · exact .inr (.inr (.inr ⟨file, saved, agree.trans agrees⟩))
  | snapshot i action locked =>
      refine ⟨?_, ?_, ?_⟩
      · intro j a t called
        exact current.past j a t (called_before (by simp) called).2
      · intro j a snap snapped
        rcases phase_moved snapped with ⟨-, same⟩ | ⟨other, before⟩
        · cases same
          exact .inr fun tok d live => Iff.rfl
        · exact absurd (serial.alone (by rw [locked]; trivial) (by rw [before]; trivial)) other
      · exact .inl ⟨i, action, _, by rw [moved_phase, if_pos rfl]⟩
  | write i ok action snap snapped =>
      have done : Unsaved (s.phase i) → Unsaved .idle := by simp [snapped, Unsaved]
      refine ⟨?_, ?_, ?_⟩
      · intro j a t called
        exact current.past j a t (called_before (by simp) called).2
      · intro j a snap' snapped'
        rcases phase_moved snapped' with ⟨-, none⟩ | ⟨other, before⟩
        · cases none
        · exact absurd (serial.alone (by rw [snapped]; trivial) (by rw [before]; trivial)) other
      · cases ok with
        | false => exact .inr (.inr (.inl (by simp)))
        | true =>
            rcases current.snapped i action snap snapped with unsaved | agree
            · exact .inr (.inl (unsaved_moved unsaved done))
            · exact .inr (.inr (.inr ⟨snap, rfl, agree⟩))

/-! A revoked token. -/

/-- The token is in no table, and no call is about to put it there. -/
structure Absent (tok : Token) (s : SessionThreads) : Prop where
  known : tok ∈ s.issued
  table : tok ∉ s.store.deadline
  pending : ∀ i action now, s.phase i = .called action now → tok ∉ action.minted

theorem absent_step {tok : Token} {s s' : SessionThreads} {event : SessionEvent} (absent : Absent tok s)
    (moves : Moves s event s') : Absent tok s' := by
  cases moves with
  | stays | clock => exact ⟨absent.known, absent.table, absent.pending⟩
  | call i action idle fresh =>
      refine ⟨List.mem_append_right _ absent.known, absent.table, ?_⟩
      intro j a t called
      rcases phase_moved called with ⟨-, same⟩ | ⟨-, before⟩
      · cases same
        exact fun made => fresh tok made absent.known
      · exact absent.pending j a t before
  | table i action now called =>
      refine ⟨absent.known, ?_, ?_⟩
      · intro held
        rcases section_mem held with before | made
        · exact absent.table before
        · exact absent.pending i action now called made
      · intro j a t called'
        apply absent.pending j a t (called_before _ called').2
        intro a' t'
        split <;> simp
  | path | lock | snapshot | write =>
      refine ⟨absent.known, absent.table, ?_⟩
      intro j a t called
      exact absent.pending j a t (called_before (by simp) called).2

structure Revoked (s : SessionThreads) : Prop where
  absent : ∀ i tok stage, s.phase i = .saving (.revoke tok) stage → Absent tok s
  snapped : ∀ i tok snap, s.phase i = .saving (.revoke tok) (.snapped snap) → tok ∉ snap.table

theorem Revoked.moved {s s' : SessionThreads} (revoked : Revoked s) {i : Nat} {new : SessionPhase}
    (phase : s'.phase = (s.moved i new).phase)
    (kept : ∀ j tok stage, s.phase j = .saving (.revoke tok) stage → Absent tok s')
    (absent : ∀ tok stage, new = .saving (.revoke tok) stage → Absent tok s')
    (snapped : ∀ tok snap, new = .saving (.revoke tok) (.snapped snap) → tok ∉ snap.table) : Revoked s' := by
  constructor
  · intro j tok stage placed
    rw [phase] at placed
    rcases phase_moved placed with ⟨-, same⟩ | ⟨-, before⟩
    · exact absent tok stage same
    · exact kept j tok stage before
  · intro j tok snap placed
    rw [phase] at placed
    rcases phase_moved placed with ⟨-, same⟩ | ⟨-, before⟩
    · exact snapped tok snap same
    · exact revoked.snapped j tok snap before

theorem revoke_absent {s : SessionThreads} (minted : Minted s) {i : Nat} {tok : Token}
    (removed : (s.store.revoke tok).2 = true) {new : SessionPhase} (other : ∀ a t, new ≠ .called a t) :
    Absent tok { s.moved i new with store := (s.store.revoke tok).1 } := by
  have held : tok ∈ s.store.deadline := AList.lookup_isSome.mp removed
  refine ⟨minted.table tok held, ?_, ?_⟩
  · exact fun still => (AList.mem_erase.mp still).1 rfl
  · intro j a t placed made
    exact (minted.pending j a t (called_before other placed).2 tok made).2 held

theorem revoked_step {s s' : SessionThreads} {event : SessionEvent} (revoked : Revoked s) (minted : Minted s)
    (moves : Moves s event s') : Revoked s' := by
  have kept : ∀ i tok stage, s.phase i = .saving (.revoke tok) stage → Absent tok s' :=
    fun i tok stage placed => absent_step (revoked.absent i tok stage placed) moves
  cases moves with
  | stays | clock => exact ⟨kept, revoked.snapped⟩
  | call | write => exact revoked.moved rfl kept (by simp) (by simp)
  | table i action now called =>
      refine revoked.moved rfl kept ?_ ?_
      · intro tok stage placed
        split at placed
        next saves =>
          cases placed
          simp only [saves, if_true]
          exact revoke_absent minted saves (by simp)
        next => cases placed
      · intro tok snap placed
        split at placed <;> cases placed
  | path i action before | lock i action before =>
      refine revoked.moved rfl kept ?_ ?_
      · intro tok stage placed
        cases placed
        exact kept i tok _ before
      · intro tok snap placed
        cases placed
  | snapshot i action locked =>
      refine revoked.moved rfl kept ?_ ?_
      · intro tok stage placed
        cases placed
        exact kept i tok _ locked
      · intro tok snap placed
        cases placed
        exact (revoked.absent i tok _ locked).table

/-- The token is in no table, no snapshot and no file. -/
structure Forgotten (tok : Token) (s : SessionThreads) : Prop where
  absent : Absent tok s
  snapped : ∀ i action snap, s.phase i = .saving action (.snapped snap) → tok ∉ snap.table
  file : ∀ file ∈ s.file, tok ∉ file.table

theorem forgotten_step {tok : Token} {s s' : SessionThreads} {event : SessionEvent} (forgotten : Forgotten tok s)
    (moves : Moves s event s') : Forgotten tok s' := by
  have absent := absent_step forgotten.absent moves
  cases moves with
  | stays | clock => exact ⟨absent, forgotten.snapped, forgotten.file⟩
  | call i action idle fresh | path i action changed | lock i action path free =>
      refine ⟨absent, ?_, forgotten.file⟩
      intro j a snap placed
      rcases phase_moved placed with ⟨-, none⟩ | ⟨-, before⟩
      · cases none
      · exact forgotten.snapped j a snap before
  | table i action now called =>
      refine ⟨absent, ?_, forgotten.file⟩
      intro j a snap placed
      rcases phase_moved placed with ⟨-, none⟩ | ⟨-, before⟩
      · split at none <;> cases none
      · exact forgotten.snapped j a snap before
  | snapshot i action locked =>
      refine ⟨absent, ?_, forgotten.file⟩
      intro j a snap placed
      rcases phase_moved placed with ⟨-, same⟩ | ⟨-, before⟩
      · cases same
        exact forgotten.absent.table
      · exact forgotten.snapped j a snap before
  | write i ok action snap snapped =>
      refine ⟨absent, ?_, ?_⟩
      · intro j a snap' placed
        rcases phase_moved placed with ⟨-, none⟩ | ⟨-, before⟩
        · cases none
        · exact forgotten.snapped j a snap' before
      · cases ok with
        | false => exact forgotten.file
        | true =>
            intro file written
            cases written
            exact forgotten.snapped i action snap snapped

theorem forgotten_write {s : SessionThreads} (revoked : Revoked s) (serial : Serial s) {i : Nat} {tok : Token}
    {snap : SavedFile} (snapped : s.phase i = .saving (.revoke tok) (.snapped snap)) :
    Forgotten tok (s.step (.write i true)) := by
  have absent := absent_step (revoked.absent i tok _ snapped) (moves_step s (.write i true))
  unfold step at absent ⊢
  simp only [snapped] at absent ⊢
  refine ⟨absent, ?_, ?_⟩
  · intro j a snap' placed
    rcases phase_moved placed with ⟨-, none⟩ | ⟨other, before⟩
    · cases none
    · exact absurd (serial.alone (by rw [snapped]; trivial) (by rw [before]; trivial)) other
  · intro file written
    cases written
    exact revoked.snapped i tok snap snapped

/-! What the file is made of. -/

structure WellFormed (file : SavedFile) : Prop where
  credential : PlainCredential file.credential
  table : ∀ tok ∈ file.table, HexToken tok

structure Written (s : SessionThreads) : Prop where
  issued : ∀ tok ∈ s.issued, HexToken tok
  credential : PlainCredential s.store.credential
  snapped : ∀ i action snap, s.phase i = .saving action (.snapped snap) → WellFormed snap
  file : ∀ file ∈ s.file, WellFormed file

theorem minted_hex {action : SessionAction} {tok : Token} (made : tok ∈ action.minted) : HexToken tok := by
  cases action with
  | create random =>
      unfold SessionAction.minted at made
      dsimp only at made
      split at made
      · cases made
      next named =>
        rw [List.mem_singleton] at made
        cases random with
        | none => exact absurd rfl named
        | some buf =>
            rw [made]
            exact hexToken_new buf
  | verify | touch | revoke | purgeExpired => cases made

theorem written_step {s s' : SessionThreads} {event : SessionEvent} (written : Written s) (minted : Minted s)
    (moves : Moves s event s') : Written s' := by
  cases moves with
  | stays | clock => exact ⟨written.issued, written.credential, written.snapped, written.file⟩
  | call i action idle fresh =>
      refine ⟨?_, written.credential, ?_, written.file⟩
      · intro tok known
        rcases List.mem_append.mp known with made | before
        · exact minted_hex made
        · exact written.issued tok before
      · intro j a snap placed
        rcases phase_moved placed with ⟨-, none⟩ | ⟨-, before⟩
        · cases none
        · exact written.snapped j a snap before
  | path i action changed | lock i action path free =>
      refine ⟨written.issued, written.credential, ?_, written.file⟩
      intro j a snap placed
      rcases phase_moved placed with ⟨-, none⟩ | ⟨-, before⟩
      · cases none
      · exact written.snapped j a snap before
  | table i action now called =>
      refine ⟨written.issued, ?_, ?_, written.file⟩
      · rw [section_credential]
        exact written.credential
      · intro j a snap placed
        rcases phase_moved placed with ⟨-, none⟩ | ⟨-, before⟩
        · split at none <;> cases none
        · exact written.snapped j a snap before
  | snapshot i action locked =>
      refine ⟨written.issued, written.credential, ?_, written.file⟩
      intro j a snap placed
      rcases phase_moved placed with ⟨-, same⟩ | ⟨-, before⟩
      · cases same
        exact ⟨written.credential, fun tok held => written.issued tok (minted.table tok held)⟩
      · exact written.snapped j a snap before
  | write i ok action snap snapped =>
      refine ⟨written.issued, written.credential, ?_, ?_⟩
      · intro j a snap' placed
        rcases phase_moved placed with ⟨-, none⟩ | ⟨-, before⟩
        · cases none
        · exact written.snapped j a snap' before
      · cases ok with
        | false => exact written.file
        | true =>
            intro file new
            cases new
            exact written.snapped i action snap snapped

theorem load_file {file : SavedFile} (wellFormed : WellFormed file) (s : SessionStore) (now : Nat) (tok : Token)
    (fits : ∀ d ∈ file.table.lookup tok, d < 2 ^ 64) :
    (s.load (.bytes (sessionsFile file.credential file.table)) now).2.2.deadline.lookup tok =
      (if s.credential ≠ [] ∧ file.credential ≠ s.credential then none
        else ((file.table.lookup tok).filter (now < ·)).map (min · (now + s.ttlNs))).or (s.deadline.lookup tok) := by
  have hex : ∀ kv ∈ file.table.entries, HexToken kv.1 := fun kv held => wellFormed.table kv.1 (List.mem_keys_of_mem held)
  rw [lookup_load, loaded_file wellFormed.credential file.table hex]
  cases saved : file.table.lookup tok with
  | none => rfl
  | some d => rw [Option.map_some, readBack_eq (fits d saved)]

/-! Runs. -/

structure Upheld (s : SessionThreads) : Prop where
  minted : Minted s
  serial : Serial s
  revoked : Revoked s
  written : Written s

theorem upheld_step {s : SessionThreads} (kept : Upheld s) (event : SessionEvent) : Upheld (s.step event) where
  minted := minted_step kept.minted (moves_step s event)
  serial := serial_step kept.serial (moves_step s event)
  revoked := revoked_step kept.revoked kept.minted (moves_step s event)
  written := written_step kept.written kept.minted (moves_step s event)

theorem upheld_start (ttlSeconds : Nat) (passwordHash : List UInt8) {table : Sessions} (clock : Nat)
    (hex : ∀ tok ∈ table, HexToken tok) : Upheld (start ttlSeconds passwordHash table clock) where
  minted := by
    refine ⟨fun tok held => held, ?_, ?_⟩
    · intro i action now called
      cases called
    · intro i j a b now now' called
      cases called
  serial := ⟨fun i saving => saving.elim⟩
  revoked := by
    constructor
    · intro i tok stage placed
      cases placed
    · intro i tok snap placed
      cases placed
  written := by
    refine ⟨fun tok held => hex tok held, ?_, ?_, ?_⟩
    · exact plainCredential_set (SessionStore.new ttlSeconds) passwordHash
    · intro i action snap placed
      cases placed
    · intro file saved
      cases saved

theorem current_start (ttlSeconds : Nat) (passwordHash : List UInt8) (table : Sessions) (clock : Nat) :
    Current (start ttlSeconds passwordHash table clock) := by
  refine ⟨?_, ?_, ?_⟩
  · intro i action now called
    cases called
  · intro i action snap placed
    cases placed
  · exact .inr (.inr (.inl (by simp [start])))

theorem upheld_run {s : SessionThreads} (kept : Upheld s) (events : List SessionEvent) : Upheld (run s events) :=
  List.foldlRecOn events step kept fun _ kept event _ => upheld_step kept event

theorem current_run {s : SessionThreads} (kept : Upheld s) (current : Current s) (events : List SessionEvent)
    (uncapped : Along step Uncapped s events) : Current (run s events) := by
  induction events generalizing s with
  | nil => exact current
  | cons event rest ih =>
      exact ih (upheld_step kept event) (current_step current kept.serial uncapped.1 (moves_step s event)) uncapped.2

theorem forgotten_later {tok : Token} {s : SessionThreads} (forgotten : Forgotten tok s) (events : List SessionEvent) :
    Forgotten tok (run s events) :=
  List.foldlRecOn events step forgotten fun _ forgotten event _ => forgotten_step forgotten (moves_step _ event)

/-- When no call is under way and the last save succeeded, the file has the sessions of the table. -/
def SavedWhenQuiet (s : SessionThreads) : Prop :=
  (∀ i, s.phase i = .idle) → s.lastSave = some true →
    ∃ file ∈ s.file, ∀ tok d, s.clock < d → (d ∈ file.table.lookup tok ↔ d ∈ s.store.deadline.lookup tok)

/-- Once a revoke's own save has gone through, the token is in no file. -/
def RevokedForGood (first : SessionThreads) (events : List SessionEvent) : Prop :=
  ∀ before i after tok snap, events = before ++ .write i true :: after →
    (run first before).phase i = .saving (.revoke tok) (.snapped snap) →
    ∀ file ∈ (run first events).file, tok ∉ file.table

/-- The file is taken back as it was saved, under its own credential. -/
def LoadsBack (s : SessionThreads) : Prop :=
  ∀ file ∈ s.file, ∀ (store : SessionStore) now tok, (∀ d ∈ file.table.lookup tok, d < 2 ^ 64) →
    (store.load (.bytes (sessionsFile file.credential file.table)) now).2.2.deadline.lookup tok =
      (if store.credential ≠ [] ∧ file.credential ≠ store.credential then none
        else ((file.table.lookup tok).filter (now < ·)).map (min · (now + store.ttlNs))).or (store.deadline.lookup tok)

theorem sessions_saved (ttlSeconds : Nat) (passwordHash : List UInt8) (table : Sessions)
    (hex : ∀ tok ∈ table, HexToken tok) (clock : Nat) (events : List SessionEvent) :
    (Along step Uncapped (start ttlSeconds passwordHash table clock) events →
      SavedWhenQuiet (run (start ttlSeconds passwordHash table clock) events)) ∧
    RevokedForGood (start ttlSeconds passwordHash table clock) events ∧
    LoadsBack (run (start ttlSeconds passwordHash table clock) events) := by
  have kept := upheld_start ttlSeconds passwordHash clock hex
  refine ⟨?_, ?_, ?_⟩
  · intro uncapped idle saved
    have current := current_run kept (current_start ttlSeconds passwordHash table clock) events uncapped
    rcases current.file with ⟨i, a, snap, snapped⟩ | ⟨i, unsaved⟩ | failed | ⟨file, written, agree⟩
    · rw [idle i] at snapped
      cases snapped
    · rw [idle i] at unsaved
      cases unsaved
    · exact absurd saved failed
    · exact ⟨file, written, agree⟩
  · intro before i after tok snap split snapped file written
    have sofar := upheld_run kept before
    have forgotten := forgotten_later (forgotten_write sofar.revoked sofar.serial snapped) after
    subst split
    rw [run, List.foldl_append, List.foldl_cons] at written
    exact forgotten.file file written
  · intro file written store now tok fits
    exact load_file ((upheld_run kept events).written.file file written) store now tok fits

def savedCall (i : Nat) (action : SessionAction) : List SessionEvent :=
  [.call i action, .table i, .path i, .lock i, .snapshot i, .write i true]

def loginThenVerify : List SessionEvent :=
  savedCall 0 (.create (some zeroes)) ++ [.call 1 (.verify (newSessionToken (some zeroes))), .clock 5, .table 1]

theorem sessions_saved_verified :
    SavedWhenQuiet (run (start 1 [] ∅ 0) loginThenVerify) ∧ RevokedForGood (start 1 [] ∅ 0) loginThenVerify ∧
    LoadsBack (run (start 1 [] ∅ 0) loginThenVerify) := by
  have result := sessions_saved 1 [] ∅ (fun tok held => absurd held (AList.notMem_empty tok)) 0 loginThenVerify
  refine ⟨result.1 ?_, result.2⟩
  have other (s : SessionThreads) (event : SessionEvent) (none : ∀ i, event ≠ .table i) : Uncapped s event :=
    fun i _ _ same => absurd same (none i)
  refine ⟨other _ _ (by simp), ?_, other _ _ (by simp), other _ _ (by simp), other _ _ (by simp), other _ _ (by simp),
    other _ _ (by simp), other _ _ (by simp), ?_, trivial⟩
  · intro i tok now same called
    cases same
    cases called
  · intro i tok now same called
    cases same
    cases called
    decide

/-- Thread 1 reads the clock and is late for the lock: thread 2 has moved the deadline on and saved it, and the cap of
`verify` takes it back in the table alone. -/
def lateVerify : List SessionEvent :=
  savedCall 0 (.create (some zeroes)) ++ [.call 1 (.verify (newSessionToken (some zeroes))), .clock 500000000] ++
    savedCall 2 (.touch (newSessionToken (some zeroes))) ++ [.table 1]

theorem saved_file_differs : ∃ events, ¬SavedWhenQuiet (run (start 1 [] ∅ 0) events) := by
  refine ⟨lateVerify, ?_⟩
  intro quiet
  have idle : ∀ i, (run (start 1 [] ∅ 0) lateVerify).phase i = .idle := by
    intro i
    match i with
    | 0 | 1 | 2 => rfl
    | _ + 3 => rfl
  obtain ⟨file, written, same⟩ := quiet idle rfl
  cases written
  have deadline := (same (newSessionToken (some zeroes)) 1500000000 (by decide)).mp (by decide)
  exact absurd deadline (by decide)

end Budyk.Proof
