import Mathlib.Data.Multiset.OrderedMonoid
import Budyk.Proof.Convert
import Budyk.Spec.Startup

/-! A failed start closes what it opened, and the next one starts as a first one does, but for the counts of reads. -/

namespace Budyk.Proof
open Storage Spec

theorem unindexedReads_pos (clock : Nat) (ring : RingFile) : 0 < unindexedReads clock ring := by
  have past : 0 < min (countUnindexed clock ring + 1) ring.capacity := Nat.lt_min.mpr ⟨Nat.succ_pos _, ring.capacity_pos⟩
  exact Nat.lt_of_lt_of_le past (Nat.le_add_left _ _)

theorem openImpl_closed {o : RingObject} (closed : o.opened = none) : o.openImpl = RingObject.new.openImpl := by
  funext io file tier capacity pos
  unfold RingObject.openImpl
  rw [closed]
  rfl

theorem convertIfOlder_descriptors {s s' : Startup} {io : RingIo} {path : String} {leaf : Leaf} {tier : UInt8} {capacity : Nat}
    {pos : 0 < capacity} (done : s.convertIfOlder io path leaf tier capacity pos = .ok s' ∨
      s.convertIfOlder io path leaf tier capacity pos = .error s') : s'.descriptors = s.descriptors := by
  revert done
  unfold Startup.convertIfOlder
  split
  next => rintro (⟨⟨⟩⟩ | ⟨⟨⟩⟩); rfl
  next =>
    split
    next => rintro (⟨⟨⟩⟩ | ⟨⟨⟩⟩); rfl
    next =>
      split
      next => rintro (⟨⟨⟩⟩ | ⟨⟨⟩⟩); rfl
      next =>
        simp only
        split
        next => rintro (⟨⟨⟩⟩ | ⟨⟨⟩⟩); rfl
        next => rintro (⟨⟨⟩⟩ | ⟨⟨⟩⟩); rfl

def descriptor (o : RingObject) : Multiset String := o.opened.elim 0 fun held => {held.1}

/-- What raising a ring with a closed object comes to, beside the same with a new one. -/
inductive RaisesAs (s : Startup) (o : RingObject) : Startup.Raised → Startup.Raised → Prop
  | tooLong {s' : Startup} (kept : s'.descriptors = s.descriptors) : RaisesAs s o (.tooLong s') (.tooLong s')
  | failed {s' : Startup} {r r' : RingObject} (closed : r.opened = none) (reads : r.reads = o.reads)
      (kept : s'.descriptors = s.descriptors) : RaisesAs s o (.failed r s') (.failed r' s')
  | up {s' : Startup} {r r' : RingObject} (same : r = credit o r') (opened : r'.opened.isSome)
      (held : s'.descriptors = descriptor r' + s.descriptors) (read : 0 < r'.reads) : RaisesAs s o (.up r s') (.up r' s')

theorem raise_closed (s : Startup) {o : RingObject} (closed : o.opened = none) (dir : String) (leaf : Leaf) (tier : UInt8)
    (maxMb : Int) (io : RingIo) :
    RaisesAs s o (s.raise o dir leaf tier maxMb io) (s.raise .new dir leaf tier maxMb io) := by
  unfold Startup.raise
  rw [openImpl_closed closed]
  cases joined : joinPath dir leaf with
  | none => exact .tooLong rfl
  | some path =>
      simp only
      cases converts : s.convertIfOlder io path leaf tier _ (TierManager.recordsFromMb_pos maxMb recordSizeForSample) with
      | error s' => exact .failed closed rfl (convertIfOlder_descriptors (.inr converts))
      | ok s' =>
          have kept := convertIfOlder_descriptors (.inl converts)
          simp only
          rcases RingObject.new.openImpl io.opening (s'.files path) tier _
            (TierManager.recordsFromMb_pos maxMb recordSizeForSample) with ⟨opening, file⟩
          cases opening with
          | error e => exact .failed closed rfl kept
          | ok ring =>
              have reads : (0 : Nat) + unindexedReads io.clock ring = unindexedReads io.clock ring := Nat.zero_add _
              refine .up ?_ rfl ?_ ?_
              · exact congrArg (fun n => (⟨some (path, (recover io.clock ring).1), 0, o.reads + n⟩ : RingObject)) reads.symm
              · exact congrArg (path ::ₘ ·) kept
              · exact Nat.lt_of_lt_of_le (unindexedReads_pos _ _) (Nat.le_add_left _ _)

/-! ## The descriptors -/

/-- The rings the objects of a manager have open. -/
def held (m : Manager) : Multiset String :=
  descriptor m.tier1 + descriptor m.tier2 + descriptor m.tier3 + (m.custom.map fun c => descriptor c.ring).sum

theorem release_eq (s : Startup) (o : RingObject) : s.release o = { s with descriptors := s.descriptors - descriptor o } := by
  unfold Startup.release descriptor
  cases o.opened with
  | none => simp
  | some held => simp [Multiset.sub_singleton]

theorem closeCustom_eq (m : Manager) :
    m.closeCustom = { m with
      descriptors := m.descriptors - (m.custom.map fun c => descriptor c.ring).sum
      custom := [] } := by
  have released : ∀ (s : Startup) (custom : List CustomObject), custom.foldl (fun s c => s.release c.ring) s =
      { s with descriptors := s.descriptors - (custom.map fun c => descriptor c.ring).sum } := by
    intro s custom
    induction custom generalizing s with
    | nil => simp
    | cons c custom ih =>
        rw [List.foldl_cons, ih, release_eq, List.map_cons, List.sum_cons, tsub_add_eq_tsub_tsub]
  unfold Manager.closeCustom
  rw [released]

theorem closeAll_eq (m : Manager) :
    m.closeAll = { m with
      descriptors := m.descriptors - held m
      tier1 := m.tier1.close
      tier2 := m.tier2.close
      tier3 := m.tier3.close
      custom := [] } := by
  have order : held m = (m.custom.map fun c => descriptor c.ring).sum + descriptor m.tier3 + descriptor m.tier2 +
      descriptor m.tier1 := by
    unfold held
    ac_rfl
  unfold Manager.closeAll Manager.closeTier1 Manager.closeTier2 Manager.closeTier3
  simp only [closeCustom_eq, release_eq]
  rw [order, tsub_add_eq_tsub_tsub, tsub_add_eq_tsub_tsub, tsub_add_eq_tsub_tsub]

/-! ## All the rings -/

/-- Descriptors are open for the rings of the objects, and for no others. -/
def Balanced (m : Manager) : Prop := m.descriptors = held m

theorem closeAll_balanced {m : Manager} (balanced : Balanced m) : m.closeAll.descriptors = 0 := by
  rw [closeAll_eq, balanced]
  exact tsub_self _

def customObjects (specs : List RingSpec) (rings : List RingObject) : List CustomObject :=
  List.zipWith (fun spec ring => ⟨spec.levelId, ring, .level spec.name⟩) specs rings

theorem raiseAll_cons {dir : String} {io : Nat → RingIo} {k : Nat} {s s' : Startup} (ring : Ring) {o : RingObject}
    (up : s.raise .new dir ring.leaf ring.tier ring.maxMb (io k) = .up o s') (rings : List Ring) :
    raiseAll dir io k s (ring :: rings) = (raiseAll dir io (k + 1) s' rings).map fun raised => (o :: raised.1, raised.2) := by
  rw [raiseAll, up]

theorem raiseAll_fails {dir : String} {io : Nat → RingIo} {k : Nat} {s : Startup} (ring : Ring)
    (fails : ∀ o s', s.raise .new dir ring.leaf ring.tier ring.maxMb (io k) ≠ .up o s') (rings : List Ring) :
    raiseAll dir io k s (ring :: rings) = none := by
  rw [raiseAll]
  split
  next o s' up => exact absurd up (fails o s')
  next => rfl

theorem balanced_push {m : Manager} (balanced : Balanced m) {s : Startup} {ring : RingObject}
    (opens : s.descriptors = descriptor ring + m.descriptors) (levelId : UInt8) (leaf : Leaf) :
    Balanced { m with toStartup := s, custom := m.custom ++ [⟨levelId, ring, leaf⟩] } := by
  unfold Balanced held at *
  simp only [opens, balanced, List.map_append, List.map_cons, List.map_nil, List.sum_append, List.sum_singleton]
  ac_rfl

theorem closeTier2_closed {m : Manager} (closed : m.tier2.opened = none) : m.closeTier2 = m := by
  obtain ⟨s, tier1, ⟨opened, errno, reads⟩, tier3, custom, ready⟩ := m
  cases closed
  rfl

theorem closeTier3_closed {m : Manager} (closed : m.tier3.opened = none) : m.closeTier3 = m := by
  obtain ⟨s, tier1, tier2, ⟨opened, errno, reads⟩, custom, ready⟩ := m
  cases closed
  rfl

theorem closeCustom_none {m : Manager} (absent : m.custom = []) : m.closeCustom = m := by
  obtain ⟨s, tier1, tier2, tier3, custom, ready⟩ := m
  cases absent
  rfl

/-- The start has failed, and what it left is closed: the objects were those of `m'` by then. -/
structure Unwound (m : Manager) (result : Int × Manager) : Prop where
  error : result.1 < 0
  closes : ∃ m' : Manager, result.2 = m'.closeAll ∧ (Balanced m → Balanced m') ∧ m'.tier1 = m.tier1 ∧ m'.ready = m.ready

theorem initCustom_cases (dir : String) (io : Nat → RingIo) (k : Nat) (m : Manager) (specs : List RingSpec) :
    (∃ rings s, raiseAll dir io k m.toStartup (specs.map levelRing) = some (rings, s) ∧
      Manager.initCustom dir io k m specs =
        (0, { m with toStartup := s, custom := m.custom ++ customObjects specs rings, ready := true })) ∨
    (raiseAll dir io k m.toStartup (specs.map levelRing) = none ∧ Unwound m (Manager.initCustom dir io k m specs)) := by
  induction specs generalizing k m with
  | nil => exact .inl ⟨[], m.toStartup, rfl, by simp [Manager.initCustom, customObjects]⟩
  | cons spec specs ih =>
      have raised := raise_closed m.toStartup (show RingObject.new.opened = none from rfl) dir (.level spec.name)
        kCustomRingTier spec.maxMb (io k)
      unfold Manager.initCustom
      cases result : m.raise .new dir (.level spec.name) kCustomRingTier spec.maxMb (io k) with
      | tooLong s =>
          rw [result] at raised
          simp only [result]
          refine .inr ⟨raiseAll_fails _ (fun o s' up => ?_) _, Int.negSucc_lt_zero 8, { m with toStartup := s }, rfl, ?_, rfl, rfl⟩
          · cases result.symm.trans up
          · cases raised with
            | tooLong kept => exact kept.trans
      | failed r s =>
          rw [result] at raised
          simp only [result]
          refine .inr ⟨raiseAll_fails _ (fun o s' up => ?_) _, Int.negSucc_lt_zero 8, { m with toStartup := s }, rfl, ?_, rfl, rfl⟩
          · cases result.symm.trans up
          · cases raised with
            | failed _ _ kept => exact kept.trans
      | up r s =>
          rw [result] at raised
          simp only [result]
          rw [List.map_cons, raiseAll_cons (levelRing spec) result]
          rcases ih (k + 1) { m with toStartup := s, custom := m.custom ++ [⟨spec.levelId, r, .level spec.name⟩] } with
            ⟨rings, s', all, done⟩ | ⟨absent, error, m', done, balanced, kept⟩
          · refine .inl ⟨r :: rings, s', by rw [all]; rfl, done.trans ?_⟩
            simp [customObjects]
          · refine .inr ⟨by rw [absent]; rfl, error, m', done, fun before => balanced ?_, kept⟩
            cases raised with
            | up _ _ opens _ => exact balanced_push before opens _ _

theorem Unwound.of {m m₁ : Manager} {result : Int × Manager} (unwound : Unwound m₁ result)
    (balanced : Balanced m → Balanced m₁) (tier1 : m₁.tier1 = m.tier1) (ready : m₁.ready = m.ready) : Unwound m result := by
  obtain ⟨error, m', closes, balanced', tier1', ready'⟩ := unwound
  exact ⟨error, m', closes, balanced' ∘ balanced, tier1'.trans tier1, ready'.trans ready⟩

theorem descriptor_closed {o : RingObject} (closed : o.opened = none) : descriptor o = 0 := by
  rw [descriptor, closed]
  rfl

theorem balanced_tier3 {m : Manager} (balanced : Balanced m) (closed : m.tier3.opened = none) {s : Startup} {o : RingObject}
    (opens : s.descriptors = descriptor o + m.descriptors) : Balanced { m with toStartup := s, tier3 := o } := by
  unfold Balanced held at *
  simp only [opens, balanced, descriptor_closed closed]
  ac_rfl

theorem balanced_tier2 {m : Manager} (balanced : Balanced m) (closed : m.tier2.opened = none) {s : Startup} {o : RingObject}
    (opens : s.descriptors = descriptor o + m.descriptors) : Balanced { m with toStartup := s, tier2 := o } := by
  unfold Balanced held at *
  simp only [opens, balanced, descriptor_closed closed]
  ac_rfl

theorem initTier3_cases {m : Manager} (closed : m.tier3.opened = none) (absent : m.custom = []) (args : StartArgs) (dir : String)
    (io : Nat → RingIo) :
    (∃ tier3 rings s, raiseAll dir io 2 m.toStartup (tier3Ring args :: args.custom.map levelRing) = some (tier3 :: rings, s) ∧
      m.initTier3 args dir io =
        (0, { m with
          toStartup := s, tier3 := credit m.tier3 tier3, custom := customObjects args.custom rings, ready := true })) ∨
    (raiseAll dir io 2 m.toStartup (tier3Ring args :: args.custom.map levelRing) = none ∧
      Unwound m (m.initTier3 args dir io)) := by
  have raised := raise_closed m.toStartup closed dir .tier3 3 args.tier3MaxMb (io 2)
  -- tier 3 and the custom rings are closed as they are
  have early : ∀ m' : Manager, m'.custom = [] → m'.tier3.opened = none → m'.closeTier2.closeTier1 = m'.closeAll := by
    intro m' absent closed
    rw [Manager.closeAll, closeCustom_none absent, closeTier3_closed closed]
  unfold Manager.initTier3
  generalize m.raise m.tier3 dir .tier3 3 args.tier3MaxMb (io 2) = result at raised
  cases alone : m.raise .new dir .tier3 3 args.tier3MaxMb (io 2) with
  | tooLong s =>
      rw [alone] at raised
      cases raised with
      | tooLong kept =>
          refine .inr ⟨raiseAll_fails _ (fun o s' up => ?_) _, Int.negSucc_lt_zero 6, { m with toStartup := s },
            early _ absent closed, ?_, rfl, rfl⟩
          · cases alone.symm.trans up
          · exact kept.trans
  | failed r s =>
      rw [alone] at raised
      cases raised with
      | @failed _ r _ closed' _ kept =>
          refine .inr ⟨raiseAll_fails _ (fun o s' up => ?_) _, Int.negSucc_lt_zero 7, { m with toStartup := s, tier3 := r },
            early _ absent closed', fun before => balanced_tier3 before closed ?_, rfl, rfl⟩
          · cases alone.symm.trans up
          · rw [descriptor_closed closed', zero_add, kept]
  | up r s =>
      rw [alone] at raised
      cases raised with
      | up same _ opens _ =>
          subst same
          rw [raiseAll_cons (tier3Ring args) alone]
          have next := initCustom_cases dir io 3 { m with toStartup := s, tier3 := credit m.tier3 r } args.custom
          rcases next with ⟨rings, s', all, done⟩ | ⟨fails, unwound⟩
          · refine .inl ⟨r, rings, s', by rw [all]; rfl, done.trans ?_⟩
            rw [absent]
            rfl
          · exact .inr ⟨by rw [fails]; rfl, unwound.of (fun before => balanced_tier3 before closed opens) rfl rfl⟩

theorem initTier2_cases {m : Manager} (closed₂ : m.tier2.opened = none) (closed₃ : m.tier3.opened = none)
    (absent : m.custom = []) (args : StartArgs) (dir : String) (io : Nat → RingIo) :
    (∃ tier2 tier3 rings s, raiseAll dir io 1 m.toStartup (tier2Ring args :: tier3Ring args :: args.custom.map levelRing) =
        some (tier2 :: tier3 :: rings, s) ∧
      m.initTier2 args dir io =
        (0, { m with
          toStartup := s, tier2 := credit m.tier2 tier2, tier3 := credit m.tier3 tier3
          custom := customObjects args.custom rings, ready := true })) ∨
    (raiseAll dir io 1 m.toStartup (tier2Ring args :: tier3Ring args :: args.custom.map levelRing) = none ∧
      Unwound m (m.initTier2 args dir io)) := by
  have raised := raise_closed m.toStartup closed₂ dir .tier2 2 args.tier2MaxMb (io 1)
  have early : ∀ m' : Manager, m'.custom = [] → m'.tier3.opened = none → m'.tier2.opened = none →
      m'.closeTier1 = m'.closeAll := by
    intro m' absent closed₃ closed₂
    rw [Manager.closeAll, closeCustom_none absent, closeTier3_closed closed₃, closeTier2_closed closed₂]
  unfold Manager.initTier2
  generalize m.raise m.tier2 dir .tier2 2 args.tier2MaxMb (io 1) = result at raised
  cases alone : m.raise .new dir .tier2 2 args.tier2MaxMb (io 1) with
  | tooLong s =>
      rw [alone] at raised
      cases raised with
      | tooLong kept =>
          refine .inr ⟨raiseAll_fails _ (fun o s' up => ?_) _, Int.negSucc_lt_zero 4, { m with toStartup := s },
            early _ absent closed₃ closed₂, ?_, rfl, rfl⟩
          · cases alone.symm.trans up
          · exact kept.trans
  | failed r s =>
      rw [alone] at raised
      cases raised with
      | @failed _ r _ closed' _ kept =>
          refine .inr ⟨raiseAll_fails _ (fun o s' up => ?_) _, Int.negSucc_lt_zero 5, { m with toStartup := s, tier2 := r },
            early _ absent closed₃ closed', fun before => balanced_tier2 before closed₂ ?_, rfl, rfl⟩
          · cases alone.symm.trans up
          · rw [descriptor_closed closed', zero_add, kept]
  | up r s =>
      rw [alone] at raised
      cases raised with
      | up same _ opens _ =>
          subst same
          rw [raiseAll_cons (tier2Ring args) alone]
          have next := @initTier3_cases { m with toStartup := s, tier2 := credit m.tier2 r } closed₃ absent args dir io
          rcases next with ⟨tier3, rings, s', all, done⟩ | ⟨fails, unwound⟩
          · exact .inl ⟨r, tier3, rings, s', by rw [all]; rfl, done⟩
          · exact .inr ⟨by rw [fails]; rfl, unwound.of (fun before => balanced_tier2 before closed₂ opens) rfl rfl⟩

/-! ## The whole start -/

structure Idle (m : Manager) : Prop where
  tier1 : m.tier1.opened = none
  tier2 : m.tier2.opened = none
  tier3 : m.tier3.opened = none
  custom : m.custom = []
  descriptors : m.descriptors = 0
  notReady : m.ready = false

theorem Idle.balanced {m : Manager} (idle : Idle m) : Balanced m := by
  unfold Balanced held
  rw [idle.descriptors, idle.custom, descriptor_closed idle.tier1, descriptor_closed idle.tier2, descriptor_closed idle.tier3]
  rfl

theorem Unwound.undone {m : Manager} {result : Int × Manager} (unwound : Unwound m result) (balanced : Balanced m)
    (notReady : m.ready = false) : Undone result.1 result.2 := by
  obtain ⟨error, m', closes, balanced', -, ready⟩ := unwound
  have released := closeAll_balanced (balanced' balanced)
  rw [closeAll_eq] at closes
  rw [closeAll_eq] at released
  rw [closes]
  exact ⟨error, rfl, rfl, rfl, rfl, released, ready.trans notReady⟩

def started (m : Manager) (args : StartArgs) (tier1 tier2 tier3 : RingObject) (rings : List RingObject) (s : Startup) :
    Manager where
  toStartup := s
  tier1 := credit m.tier1 tier1
  tier2 := credit m.tier2 tier2
  tier3 := credit m.tier3 tier3
  custom := customObjects args.custom rings
  ready := true

/-- What a failed start has read through the objects, `first` being that its first ring is the one that fails. -/
structure HasRead (m after : Manager) (first : Prop) : Prop where
  untouched : first → after.tier1.reads = m.tier1.reads ∧ after.tier2.reads = m.tier2.reads ∧ after.tier3.reads = m.tier3.reads
  counted : ¬first → m.tier1.reads < after.tier1.reads

theorem initTier1_cases {m : Manager} (idle : Idle m) (args : StartArgs) (dir : String) (io : Nat → RingIo) :
    (∃ tier1 tier2 tier3 rings s, raiseAll dir io 0 m.toStartup (ringsOf args) = some (tier1 :: tier2 :: tier3 :: rings, s) ∧
      m.initTier1 args dir io = (0, started m args tier1 tier2 tier3 rings s)) ∨
    (raiseAll dir io 0 m.toStartup (ringsOf args) = none ∧ Undone (m.initTier1 args dir io).1 (m.initTier1 args dir io).2 ∧
      HasRead m (m.initTier1 args dir io).2 (raiseAll dir io 0 m.toStartup [tier1Ring args] = none)) := by
  have raised := raise_closed m.toStartup idle.tier1 dir .tier1 1 args.tier1MaxMb (io 0)
  unfold Manager.initTier1 ringsOf
  generalize m.raise m.tier1 dir .tier1 1 args.tier1MaxMb (io 0) = result at raised
  cases alone : m.raise .new dir .tier1 1 args.tier1MaxMb (io 0) with
  | tooLong s =>
      have fails := raiseAll_fails (k := 0) (tier1Ring args) fun o s' up => by cases alone.symm.trans up
      rw [alone] at raised
      cases raised with
      | tooLong kept =>
          refine .inr ⟨fails _, ⟨Int.negSucc_lt_zero 2, idle.tier1, idle.tier2, idle.tier3, idle.custom, ?_, idle.notReady⟩, ?_⟩
          · exact kept.trans idle.descriptors
          · exact ⟨fun _ => ⟨rfl, rfl, rfl⟩, fun up => absurd (fails []) up⟩
  | failed r s =>
      have fails := raiseAll_fails (k := 0) (tier1Ring args) fun o s' up => by cases alone.symm.trans up
      rw [alone] at raised
      cases raised with
      | failed closed' reads kept =>
          refine .inr ⟨fails _, ⟨Int.negSucc_lt_zero 3, closed', idle.tier2, idle.tier3, idle.custom, ?_, idle.notReady⟩, ?_⟩
          · exact kept.trans idle.descriptors
          · exact ⟨fun _ => ⟨reads, rfl, rfl⟩, fun up => absurd (fails []) up⟩
  | up r s =>
      have single := raiseAll_cons (tier1Ring args) alone
      rw [alone] at raised
      cases raised with
      | up same opened opens read =>
          subst same
          rw [single, single]
          have next := @initTier2_cases { m with toStartup := s, tier1 := credit m.tier1 r } idle.tier2 idle.tier3 idle.custom
            args dir io
          rcases next with ⟨tier2, tier3, rings, s', all, done⟩ | ⟨fails, unwound⟩
          · exact .inl ⟨r, tier2, tier3, rings, s', by rw [all]; rfl, done⟩
          · have balanced : Balanced { m with toStartup := s, tier1 := credit m.tier1 r } := by
              unfold Balanced held
              simp only [opens, idle.descriptors, idle.custom, descriptor_closed idle.tier2, descriptor_closed idle.tier3,
                List.map_nil, List.sum_nil, add_zero]
              rfl
            refine .inr ⟨by rw [fails]; rfl, unwound.undone balanced idle.notReady, fun absent => ?_, fun _ => ?_⟩
            · cases absent
            · obtain ⟨-, m', closes, -, kept, -⟩ := unwound
              rw [closeAll_eq] at closes
              calc m.tier1.reads
                _ < (credit m.tier1 r).reads := Nat.lt_add_of_pos_right read
                _ = m'.tier1.reads := by rw [kept]
                _ = (Manager.initTier2 { m with toStartup := s, tier1 := credit m.tier1 r } args dir io).2.tier1.reads := by
                  rw [closes]
                  rfl

theorem raiseAll_opens {dir : String} {io : Nat → RingIo} {rings : List Ring} {k : Nat} {s s' : Startup}
    {objects : List RingObject} (all : raiseAll dir io k s rings = some (objects, s')) :
    objects.length = rings.length ∧ s'.descriptors = (objects.map descriptor).sum + s.descriptors ∧
      ∀ o ∈ objects, 0 < o.reads := by
  induction rings generalizing k s objects with
  | nil =>
      cases all
      exact ⟨rfl, (zero_add _).symm, fun _ held => by cases held⟩
  | cons ring rings ih =>
      have raised := raise_closed s (show RingObject.new.opened = none from rfl) dir ring.leaf ring.tier ring.maxMb (io k)
      cases alone : s.raise .new dir ring.leaf ring.tier ring.maxMb (io k) with
      | tooLong => simp [raiseAll, alone] at all
      | failed => simp [raiseAll, alone] at all
      | up o s₁ =>
          rw [raiseAll_cons ring alone, Option.map_eq_some_iff] at all
          obtain ⟨⟨others, s₂⟩, rest, same⟩ := all
          cases same
          obtain ⟨length, opens, read⟩ := ih rest
          rw [alone] at raised
          cases raised with
          | up _ _ opens₁ read₁ =>
              refine ⟨congrArg (· + 1) length, ?_, List.forall_mem_cons.mpr ⟨read₁, read⟩⟩
              rw [opens, opens₁, List.map_cons, List.sum_cons]
              ac_rfl

theorem customObjects_descriptors {specs : List RingSpec} {rings : List RingObject} (length : rings.length = specs.length) :
    ((customObjects specs rings).map fun c => descriptor c.ring) = rings.map descriptor := by
  induction specs generalizing rings with
  | nil =>
      rw [List.length_eq_zero_iff.mp length]
      rfl
  | cons spec specs ih =>
      obtain ⟨ring, rings, rfl⟩ := List.exists_cons_of_length_eq_add_one length
      exact congrArg (descriptor ring :: ·) (ih (Nat.succ.inj length))

theorem started_balanced {m : Manager} (idle : Idle m) {args : StartArgs} {dir : String} {io : Nat → RingIo}
    {tier1 tier2 tier3 : RingObject} {rings : List RingObject} {s : Startup}
    (all : raiseAll dir io 0 m.toStartup (ringsOf args) = some (tier1 :: tier2 :: tier3 :: rings, s)) :
    Balanced (started m args tier1 tier2 tier3 rings s) := by
  obtain ⟨length, opens, -⟩ := raiseAll_opens all
  have customs : rings.length = args.custom.length := by simpa [ringsOf] using length
  have credited : ∀ o r, descriptor (credit o r) = descriptor r := fun _ _ => rfl
  unfold Balanced held started
  simp only [opens, idle.descriptors, customObjects_descriptors customs, credited, List.map_cons, List.sum_cons, add_zero]
  ac_rfl

/-! ## Every manager reached -/

structure Settled (m : Manager) : Prop where
  balanced : Balanced m
  idle : m.ready = false → Idle m
  unread : m.tier1.reads = 0 → m.ready = false ∧ m.tier2.reads = 0 ∧ m.tier3.reads = 0

theorem Idle.settled {m : Manager} (idle : Idle m) (unread : m.tier1.reads = 0 → m.tier2.reads = 0 ∧ m.tier3.reads = 0) :
    Settled m :=
  ⟨idle.balanced, fun _ => idle, fun absent => ⟨idle.notReady, unread absent⟩⟩

theorem new_idle (files : String → Option DiskFile) : Idle (.new files) := ⟨rfl, rfl, rfl, rfl, rfl, rfl⟩

theorem undone_idle {rc : Int} {m : Manager} (undone : Undone rc m) : Idle m :=
  ⟨undone.tier1, undone.tier2, undone.tier3, undone.custom, undone.descriptors, undone.notReady⟩

theorem Idle.cleared {m : Manager} (idle : Idle m) : Idle { m with toStartup := m.cleared } :=
  ⟨idle.tier1, idle.tier2, idle.tier3, idle.custom, idle.descriptors, idle.notReady⟩

theorem init_idle {m : Manager} (idle : Idle m) {args : StartArgs} {dir : String} (named : args.dataDir = some dir)
    (io : Nat → RingIo) : m.init args io = { m with toStartup := m.cleared }.initTier1 args dir io := by
  unfold Manager.init
  rw [named]
  simp [idle.notReady]

theorem init_fails {m : Manager} (idle : Idle m) {args : StartArgs} {dir : String} (named : args.dataDir = some dir)
    {io : Nat → RingIo} (fails : raiseAll dir io 0 m.cleared (ringsOf args) = none) :
    Undone (m.init args io).1 (m.init args io).2 ∧
      HasRead m (m.init args io).2 (raiseAll dir io 0 m.cleared [tier1Ring args] = none) := by
  rw [init_idle idle named io]
  rcases initTier1_cases idle.cleared args dir io with ⟨_, _, _, _, _, all, -⟩ | ⟨-, undone, read⟩
  · cases fails.symm.trans all
  · exact ⟨undone, read.untouched, read.counted⟩

theorem init_settled {m : Manager} (settled : Settled m) (args : StartArgs) (io : Nat → RingIo) :
    Settled (m.init args io).2 := by
  cases named : args.dataDir with
  | none =>
      have same : (m.init args io).2 = { m with toStartup := { m.cleared with lastError := some .noDataDir } } := by
        unfold Manager.init
        rw [named]
      rw [same]
      exact ⟨settled.balanced, fun notReady =>
        let idle := settled.idle notReady
        ⟨idle.tier1, idle.tier2, idle.tier3, idle.custom, idle.descriptors, idle.notReady⟩, settled.unread⟩
  | some dir =>
      cases ready : m.ready with
      | true =>
          have same : (m.init args io).2 = { m with toStartup := { m.cleared with lastError := some .alreadyInitialised } } := by
            unfold Manager.init
            rw [named]
            simp [ready]
          rw [same]
          exact ⟨settled.balanced, fun notReady => (by cases ready.symm.trans notReady), settled.unread⟩
      | false =>
          have idle := settled.idle ready
          rw [init_idle idle named]
          rcases initTier1_cases idle.cleared args dir io with ⟨tier1, tier2, tier3, rings, s, all, done⟩ | ⟨-, undone, read⟩
          · rw [done]
            refine ⟨started_balanced idle.cleared all, fun notReady => (by cases notReady), fun absent => ?_⟩
            have read := (raiseAll_opens all).2.2 tier1 List.mem_cons_self
            exact absurd (Nat.eq_zero_of_add_eq_zero_left absent) read.ne'
          · refine (undone_idle undone).settled fun absent => ?_
            by_cases first : raiseAll dir io 0 { m with toStartup := m.cleared }.toStartup [tier1Ring args] = none
            · obtain ⟨same₁, same₂, same₃⟩ := read.untouched first
              rw [same₂, same₃]
              exact (settled.unread (same₁.symm.trans absent)).2
            · exact absurd absent (Nat.ne_zero_of_lt (read.counted first))

theorem close_settled {m : Manager} (settled : Settled m) : Settled m.close := by
  unfold Manager.close
  split
  next => exact settled
  next ready =>
    have released := closeAll_balanced settled.balanced
    rw [closeAll_eq] at released ⊢
    refine Idle.settled ⟨rfl, rfl, rfl, rfl, released, rfl⟩ fun absent => (settled.unread absent).2

theorem useRing_descriptor (change : Leaf → RingFile → RingFile) (reads : Leaf → Nat) (leaf : Leaf) (o : RingObject) :
    descriptor (Manager.useRing change reads leaf o) = descriptor o := by
  unfold Manager.useRing descriptor
  cases o.opened <;> rfl

theorem step_settled {m : Manager} (settled : Settled m) (call : Manager.Call) : Settled (m.step call) := by
  cases call with
  | init args io => exact init_settled settled args io
  | close => exact close_settled settled
  | change files =>
      refine ⟨settled.balanced, fun notReady => ?_, settled.unread⟩
      have idle := settled.idle notReady
      exact ⟨idle.tier1, idle.tier2, idle.tier3, idle.custom, idle.descriptors, idle.notReady⟩
  | use change reads =>
      unfold Manager.step
      simp only
      split
      next ready =>
        refine ⟨?_, fun notReady => (by cases ready.symm.trans notReady), fun absent => ?_⟩
        · have balanced := settled.balanced
          unfold Balanced held at *
          simp only [useRing_descriptor, List.map_map, Function.comp_def]
          exact balanced
        · have untouched := settled.unread (Nat.eq_zero_of_add_eq_zero_right absent)
          cases ready.symm.trans untouched.1
      next => exact settled

theorem run_settled (files : String → Option DiskFile) (calls : List Manager.Call) : Settled (Manager.run files calls) := by
  unfold Manager.run
  induction calls using List.reverseRecOn with
  | nil => exact (new_idle files).settled fun _ => ⟨rfl, rfl⟩
  | append_singleton calls call ih =>
      rw [List.foldl_append]
      exact step_settled ih call

/-! ## The next start -/

theorem next_start {m : Manager} (idle : Idle m) {files : String → Option DiskFile} {args : StartArgs} {io : Nat → RingIo}
    (starts : ((Manager.new files).init args io).1 = 0) :
    { m with files := files }.init args io = (0, countOn m ((Manager.new files).init args io).2) := by
  cases named : args.dataDir with
  | none =>
      have refused : ((Manager.new files).init args io).1 = -1 := by
        unfold Manager.init
        rw [named]
      cases refused.symm.trans starts
  | some dir =>
      have repaired : Idle { m with files := files } :=
        ⟨idle.tier1, idle.tier2, idle.tier3, idle.custom, idle.descriptors, idle.notReady⟩
      -- both begin with the same files, no descriptor and an empty report
      have same : { m with files := files }.cleared = (Manager.new files).cleared := by
        simp [Startup.cleared, Manager.new, idle.descriptors]
      rw [init_idle (new_idle files) named] at starts ⊢
      rw [init_idle repaired named]
      rcases initTier1_cases (new_idle files).cleared args dir io with ⟨t₁, t₂, t₃, rings, s, all, done⟩ | ⟨-, undone, -⟩
      · rcases initTier1_cases repaired.cleared args dir io with ⟨t₁', t₂', t₃', rings', s', all', done'⟩ | ⟨absent, -, -⟩
        · rw [same] at all'
          cases all.symm.trans all'
          rw [done, done']
          simp [started, countOn, credit, Manager.new, RingObject.new]
        · rw [same] at absent
          cases all.symm.trans absent
      · exact absurd starts undone.error.ne

theorem countOn_reads (m started : Manager) : (countOn m started).tier1.reads = m.tier1.reads + started.tier1.reads := rfl

theorem countOn_unread {m : Manager} (unread : m.tier1.reads = 0 ∧ m.tier2.reads = 0 ∧ m.tier3.reads = 0) (started : Manager) :
    countOn m started = started := by
  obtain ⟨none₁, none₂, none₃⟩ := unread
  simp [countOn, credit, none₁, none₂, none₃]

def healthyRing : RingIo := ⟨none, healthyIo 0, ⟨none, none, none, none, none⟩, 1⟩

def plainStart : StartArgs := ⟨some "", 1, 1, 1, []⟩

theorem plainStart_starts : ((Manager.new fun _ => none).init plainStart fun _ => healthyRing).1 = 0 := rfl

theorem startsAsNew_iff {m : Manager} (idle : Idle m) (unread : m.tier1.reads = 0 → m.tier2.reads = 0 ∧ m.tier3.reads = 0) :
    StartsAsNew m ↔ m.tier1.reads = 0 := by
  constructor
  · intro same
    have counts := same _ _ _ plainStart_starts
    rw [next_start idle plainStart_starts] at counts
    have reads := congrArg (fun result : Int × Manager => result.2.tier1.reads) counts
    simp only [countOn_reads] at reads
    exact Nat.add_eq_right.mp reads
  · intro absent files args io starts
    rw [next_start idle starts, countOn_unread ⟨absent, unread absent⟩, ← starts]

/-- Whichever ring fails, everything is closed again and the next start succeeds as a first one does, but for the counts of
reads, which go on: they are those of a first start exactly where no ring had been read. -/
theorem init_all_or_nothing (files : String → Option DiskFile) (calls : List Manager.Call)
    (notReady : (Manager.run files calls).ready = false) {args : StartArgs} {dir : String} (named : args.dataDir = some dir)
    {io : Nat → RingIo} (fails : raiseAll dir io 0 (Manager.run files calls).cleared (ringsOf args) = none) :
    let m := Manager.run files calls
    let failed := m.init args io
    Undone failed.1 failed.2 ∧
      (∀ files args io, ((Manager.new files).init args io).1 = 0 →
        { failed.2 with files := files }.init args io = (0, countOn failed.2 ((Manager.new files).init args io).2)) ∧
      (StartsAsNew failed.2 ↔ m.tier1.reads = 0 ∧ raiseAll dir io 0 m.cleared [tier1Ring args] = none) := by
  have settled := run_settled files calls
  generalize Manager.run files calls = m at notReady fails settled
  have idle := settled.idle notReady
  have after := init_settled settled args io
  obtain ⟨undone, read⟩ := init_fails idle named fails
  refine ⟨undone, fun _ _ _ => next_start (undone_idle undone), ?_⟩
  rw [startsAsNew_iff (undone_idle undone) fun absent => (after.unread absent).2]
  constructor
  · intro absent
    by_cases first : raiseAll dir io 0 m.cleared [tier1Ring args] = none
    · exact ⟨(read.untouched first).1.symm.trans absent, first⟩
    · exact absurd absent (Nat.ne_zero_of_lt (read.counted first))
  · rintro ⟨absent, first⟩
    exact (read.untouched first).1.trans absent

/-- A directory in which something else stands under the name of the second ring. -/
def strangeTier2 : String → Option DiskFile := Function.update (fun _ => none) "/tier2.ring" (some (.badMagic 5))

theorem strangeTier2_fails :
    raiseAll "" (fun _ => healthyRing) 0 (Manager.new strangeTier2).cleared (ringsOf plainStart) = none := rfl

theorem init_all_or_nothing_strange :
    (Manager.run strangeTier2 []).ready = false ∧
      raiseAll "" (fun _ => healthyRing) 0 (Manager.run strangeTier2 []).cleared (ringsOf plainStart) = none ∧
      Undone ((Manager.new strangeTier2).init plainStart fun _ => healthyRing).1
        ((Manager.new strangeTier2).init plainStart fun _ => healthyRing).2 :=
  ⟨rfl, strangeTier2_fails, (@init_all_or_nothing strangeTier2 [] rfl plainStart "" rfl _ strangeTier2_fails).1⟩

/-- With the strange file taken away, what the failed start has read of the first ring is counted again. -/
theorem retry_counts_on :
    let failed := (Manager.new strangeTier2).init plainStart fun _ => healthyRing
    let first := (Manager.new fun _ => none).init plainStart fun _ => healthyRing
    let retried := { failed.2 with files := fun _ => none }.init plainStart fun _ => healthyRing
    failed.1 = -6 ∧ first.1 = 0 ∧ retried.1 = 0 ∧ first.2.tier1.reads < retried.2.tier1.reads := by
  obtain ⟨undone, read⟩ := init_fails (new_idle strangeTier2) (show plainStart.dataDir = some "" from rfl) strangeTier2_fails
  have counted : 0 < ((Manager.new strangeTier2).init plainStart fun _ => healthyRing).2.tier1.reads := read.counted nofun
  refine ⟨rfl, rfl, ?_⟩
  rw [next_start (undone_idle undone) plainStart_starts, countOn_reads]
  exact ⟨rfl, Nat.lt_add_of_pos_left counted⟩

end Budyk.Proof
