import Budyk.Proof.TierInit

/-! On a directory of this version's rings, and where no system call fails, `init` over files and objects is the `init` that
the other results are about. -/

namespace Budyk.Proof
open Storage Spec

theorem leafText_injective : Function.Injective Leaf.text := by
  have level : ∀ name, (Leaf.level name).text.toList = 'l' :: ("evel-" ++ name ++ ".ring").toList := fun name => by
    simp [Leaf.text]
  intro a b same
  have chars := congrArg String.toList same
  cases a with
  | level name =>
      cases b with
      | level other =>
          simp only [Leaf.text, String.append_left_inj, String.append_right_inj] at same
          rw [same]
      | tier1 | tier2 | tier3 =>
          rw [level] at chars
          exact absurd (List.cons.inj chars).1 (by decide)
  | tier1 | tier2 | tier3 =>
      cases b with
      | level other =>
          rw [level] at chars
          exact absurd (List.cons.inj chars).1 (by decide)
      | tier1 | tier2 | tier3 => first | rfl | exact absurd same (by decide)

theorem joinPath_injective {dir path : String} {a b : Leaf} (first : joinPath dir a = some path)
    (second : joinPath dir b = some path) : a = b := by
  unfold joinPath at first second
  simp only [Option.ite_none_right_eq_some, Option.some.injEq] at first second
  have same := first.2.trans second.2.symm
  simp only [String.append_assoc, String.append_right_inj] at same
  exact leafText_injective same

/-- The files of the rings of a directory are those of `rings`. -/
def OnDisk (dir : String) (files : String → Option DiskFile) (rings : Leaf → Option RingFile) : Prop :=
  ∀ leaf path, joinPath dir leaf = some path → files path = (rings leaf).map DiskFile.ofRing

theorem OnDisk.put {dir : String} {files : String → Option DiskFile} {rings : Leaf → Option RingFile}
    (onDisk : OnDisk dir files rings) {leaf : Leaf} {path : String} (joined : joinPath dir leaf = some path) (ring : RingFile) :
    OnDisk dir (Function.update files path (some (.ofRing ring))) (Function.update rings leaf (some ring)) := by
  intro other place joined'
  by_cases here : other = leaf
  · subst here
    cases joined.symm.trans joined'
    rw [Function.update_self, Function.update_self]
    rfl
  · have elsewhere : place ≠ path := by
      rintro rfl
      exact here (joinPath_injective joined' joined)
    rw [Function.update_of_ne here, Function.update_of_ne elsewhere]
    exact onDisk other place joined'

structure Healthy (clock : Nat) (io : RingIo) : Prop where
  opening : io.opening = ⟨none, none, none, none, none⟩
  clock : io.clock = clock

theorem readHeader_ofRing (ring : RingFile) : readHeader none (some (.ofRing ring)) = some ⟨recordSizeForSample, ring.reopen⟩ := by
  have positive : recordSizeForSample ≠ 0 := by decide
  exact dif_pos ⟨positive, ring.capacity_pos, rfl⟩

theorem convertIfOlder_current {s : Startup} {path : String} {ring : Option RingFile}
    (current : s.files path = ring.map DiskFile.ofRing) (io : RingIo) (leaf : Leaf) (tier : UInt8) (capacity : Nat)
    (pos : 0 < capacity) : s.convertIfOlder io path leaf tier capacity pos = .ok s := by
  unfold Startup.convertIfOlder
  rw [current]
  cases ring with
  | none => cases io.readHeader <;> rfl
  | some ring =>
      cases io.readHeader with
      | some errno => rfl
      | none =>
          rw [Option.map_some, readHeader_ofRing]
          exact if_pos (.inr rfl)

theorem fileBytes_injective {a b : Nat} (same : DiskFile.fileBytes recordSizeForSample a = DiskFile.fileBytes recordSizeForSample b) :
    a = b := by
  unfold DiskFile.fileBytes at same
  have positive : 0 < recordSizeForSample := by decide
  exact Nat.eq_of_mul_eq_mul_left positive (Nat.add_left_cancel same)

theorem openImpl_current {m : TierManager} {leaf : Leaf} {o : RingObject} (closed : o.opened = none) (tier : UInt8) (maxMb : Int) :
    let file := (m.rings leaf).map DiskFile.ofRing
    (o.openImpl ⟨none, none, none, none, none⟩ file tier _ (TierManager.recordsFromMb_pos maxMb recordSizeForSample)).1 =
        m.openRing leaf tier maxMb none ∧
      ∀ e, m.openRing leaf tier maxMb none = .error e →
        (o.openImpl ⟨none, none, none, none, none⟩ file tier _ (TierManager.recordsFromMb_pos maxMb recordSizeForSample)).2 =
          file := by
  unfold TierManager.openRing RingObject.openImpl
  rw [closed]
  cases stored : m.rings leaf with
  | none => exact ⟨rfl, fun _ failed => by cases failed⟩
  | some ring =>
      simp only [Option.isSome_none, Bool.false_eq_true, if_false, Option.map_some, Option.getD_some, DiskFile.ofRing,
        DiskFile.size]
      by_cases capacity : ring.capacity = TierManager.recordsFromMb maxMb recordSizeForSample
      · by_cases sameTier : ring.tier = tier
        · simp only [capacity, sameTier, RingObject.mapHeader, RingObject.checkHeader, ne_eq, not_true_eq_false, if_false]
          refine ⟨congrArg Except.ok ?_, fun _ failed => by cases failed⟩
          obtain ⟨tier', capacity', pos, slots, writeIdx, widx, begun, errno⟩ := ring
          cases capacity
          cases sameTier
          rfl
        · simp [capacity, sameTier, RingObject.mapHeader, RingObject.checkHeader, Except.mapError]
      · simp [capacity, mt fileBytes_injective capacity]

/-- Both ways of raising a ring come to the same. -/
inductive Agrees (dir : String) (ready : Bool) : Except TierManager TierManager → Startup.Raised → Prop
  | failed {m : TierManager} {o : RingObject} {s : Startup} (onDisk : OnDisk dir s.files m.rings)
      (recovered : s.recovered = m.recovered) (kept : m.ready = ready) : Agrees dir ready (.error m) (.failed o s)
  | up {m : TierManager} {o : RingObject} {s : Startup} (onDisk : OnDisk dir s.files m.rings)
      (recovered : s.recovered = m.recovered) (kept : m.ready = ready) : Agrees dir ready (.ok m) (.up o s)

theorem raise_agrees {m : TierManager} {s : Startup} {dir : String} (onDisk : OnDisk dir s.files m.rings)
    (recovered : s.recovered = m.recovered) {o : RingObject} (closed : o.opened = none) {leaf : Leaf}
    (fits : (joinPath dir leaf).isSome) (tier : UInt8) (maxMb : Int) {clock : Nat} {io : RingIo} (healthy : Healthy clock io) :
    Agrees dir m.ready (m.initRing clock leaf tier maxMb none) (s.raise o dir leaf tier maxMb io) := by
  obtain ⟨path, joined⟩ := Option.isSome_iff_exists.mp fits
  have file := onDisk leaf path joined
  obtain ⟨opens, leaves⟩ := @openImpl_current m leaf o closed tier maxMb
  unfold Startup.raise TierManager.initRing
  simp only [joined, convertIfOlder_current file, healthy.opening, healthy.clock, file, opens]
  cases opened : m.openRing leaf tier maxMb none with
  | error e =>
      rw [leaves e opened, ← file]
      refine .failed ?_ recovered rfl
      unfold Startup.failed Startup.putFile
      rw [Function.update_eq_self]
      exact onDisk
  | ok ring =>
      refine .up ?_ (congrArg (· ++ (recover clock ring).2.toList.map fun n => (leaf, n)) recovered) rfl
      unfold Startup.recoverRing Startup.putFile
      simp only [Function.update_idem]
      exact OnDisk.put onDisk joined _

/-! ## The whole -/

def specOf (spec : TierManager.LevelRingSpec) : RingSpec := ⟨spec.levelId, spec.name, spec.maxMb⟩

def startArgs (dir : String) (args : TierManager.InitArgs) : StartArgs :=
  ⟨some dir, args.tier1MaxMb, args.tier2MaxMb, args.tier3MaxMb, args.custom.map specOf⟩

structure SameStart (dir : String) (old : Int × TierManager) (new : Int × Manager) : Prop where
  rc : new.1 = old.1
  onDisk : OnDisk dir new.2.files old.2.rings
  recovered : new.2.recovered = old.2.recovered
  ready : new.2.ready = old.2.ready

theorem SameStart.of_closed {dir : String} {rc : Int} {m : TierManager} {n n' : Manager} (onDisk : OnDisk dir n.files m.rings)
    (recovered : n.recovered = m.recovered) (ready : n.ready = m.ready)
    (closes : n' = n.closeAll ∨ n' = n.closeTier2.closeTier1 ∨ n' = n.closeTier1) : SameStart dir (rc, m) (rc, n') := by
  rcases closes with rfl | rfl | rfl
  · rw [closeAll_eq]
    exact ⟨rfl, onDisk, recovered, ready⟩
  · unfold Manager.closeTier2 Manager.closeTier1
    simp only [release_eq]
    exact ⟨rfl, onDisk, recovered, ready⟩
  · unfold Manager.closeTier1
    simp only [release_eq]
    exact ⟨rfl, onDisk, recovered, ready⟩

section Whole
variable {dir : String} {clock : Nat} {io : Nat → RingIo} (healthy : ∀ k, Healthy clock (io k))
include healthy

theorem initCustom_agrees (specs : List TierManager.LevelRingSpec) (fits : ∀ spec ∈ specs, (joinPath dir (levelLeaf spec)).isSome)
    (k : Nat) {m : TierManager} {n : Manager} (onDisk : OnDisk dir n.files m.rings) (recovered : n.recovered = m.recovered)
    (ready : n.ready = m.ready) :
    SameStart dir
      (match m.initCustom clock (fun _ => none) specs with
        | .error m => (-9, m)
        | .ok m => (0, { m with ready := true }))
      (Manager.initCustom dir io k n (specs.map specOf)) := by
  induction specs generalizing k m n with
  | nil => exact ⟨rfl, onDisk, recovered, rfl⟩
  | cons spec specs ih =>
      have raised := raise_agrees onDisk recovered (show RingObject.new.opened = none from rfl)
        (fits spec List.mem_cons_self) kCustomRingTier spec.maxMb (healthy k)
      rw [List.map_cons]
      unfold TierManager.initCustom Manager.initCustom
      rw [levelLeaf] at raised
      simp only [specOf]
      generalize m.initRing clock (.level spec.name) kCustomRingTier spec.maxMb none = old at raised
      generalize n.raise .new dir (.level spec.name) kCustomRingTier spec.maxMb (io k) = new at raised
      cases raised with
      | @failed m' _ s onDisk recovered kept =>
          exact @SameStart.of_closed _ _ { m' with custom := [] } { n with toStartup := s } _ onDisk recovered
            (ready.trans kept.symm) (.inl rfl)
      | up onDisk recovered kept =>
          exact ih (fun spec held => fits spec (List.mem_cons_of_mem _ held)) (k + 1) onDisk recovered (ready.trans kept.symm)

def PathsFit (dir : String) (args : TierManager.InitArgs) : Prop :=
  ∀ ring ∈ ringsOf (startArgs dir args), (joinPath dir ring.leaf).isSome

theorem init_agrees {m : TierManager} {n : Manager} (idle : Idle n) (notReady : m.ready = false) {args : TierManager.InitArgs}
    (fits : PathsFit dir args) (onDisk : OnDisk dir n.files m.rings) :
    SameStart dir (m.init args clock fun _ => none) (n.init (startArgs dir args) io) := by
  have fit₁ : (joinPath dir .tier1).isSome := fits (tier1Ring (startArgs dir args)) (by simp [ringsOf])
  have fit₂ : (joinPath dir .tier2).isSome := fits (tier2Ring (startArgs dir args)) (by simp [ringsOf])
  have fit₃ : (joinPath dir .tier3).isSome := fits (tier3Ring (startArgs dir args)) (by simp [ringsOf])
  have levels : ∀ spec ∈ args.custom, (joinPath dir (levelLeaf spec)).isSome := fun spec held =>
    fits (levelRing (specOf spec)) (by
      unfold ringsOf startArgs
      iterate 3 apply List.mem_cons_of_mem
      rw [List.map_map]
      exact List.mem_map_of_mem held)
  have first := @raise_agrees { m with lastError := none, recovered := [] } n.cleared dir onDisk rfl n.tier1 idle.tier1 .tier1
    fit₁ 1 args.tier1MaxMb clock (io 0) (healthy 0)
  rw [init_idle idle rfl]
  unfold TierManager.init
  simp only [notReady, Bool.false_eq_true, if_false] at first ⊢
  unfold Manager.initTier1
  simp only [startArgs]
  generalize TierManager.initRing _ clock .tier1 1 args.tier1MaxMb none = old at first
  generalize n.cleared.raise n.tier1 dir .tier1 1 args.tier1MaxMb (io 0) = new at first
  cases first with
  | failed onDisk recovered kept => exact ⟨rfl, onDisk, recovered, idle.notReady.trans kept.symm⟩
  | @up m₁ o₁ s₁ onDisk recovered kept =>
      have second := raise_agrees onDisk recovered idle.tier2 fit₂ 2 args.tier2MaxMb (healthy 1)
      simp only
      unfold Manager.initTier2
      simp only
      generalize m₁.initRing clock .tier2 2 args.tier2MaxMb none = old at second
      generalize s₁.raise n.tier2 dir .tier2 2 args.tier2MaxMb (io 1) = new at second
      cases second with
      | @failed m₂ o₂ s₂ onDisk recovered kept₂ =>
          exact @SameStart.of_closed _ _ m₂ { n with toStartup := s₂, tier1 := o₁, tier2 := o₂ } _ onDisk recovered
            ((idle.notReady.trans kept.symm).trans kept₂.symm) (.inr (.inr rfl))
      | @up m₂ o₂ s₂ onDisk recovered kept₂ =>
          have third := raise_agrees onDisk recovered idle.tier3 fit₃ 3 args.tier3MaxMb (healthy 2)
          simp only
          unfold Manager.initTier3
          simp only
          generalize m₂.initRing clock .tier3 3 args.tier3MaxMb none = old at third
          generalize s₂.raise n.tier3 dir .tier3 3 args.tier3MaxMb (io 2) = new at third
          cases third with
          | @failed m₃ o₃ s₃ onDisk recovered kept₃ =>
              exact @SameStart.of_closed _ _ m₃ { n with toStartup := s₃, tier1 := o₁, tier2 := o₂, tier3 := o₃ } _ onDisk
                recovered (((idle.notReady.trans kept.symm).trans kept₂.symm).trans kept₃.symm) (.inr (.inl rfl))
          | @up m₃ o₃ s₃ onDisk recovered kept₃ =>
              exact @initCustom_agrees _ _ _ healthy args.custom levels 3 m₃
                { n with toStartup := s₃, tier1 := o₁, tier2 := o₂, tier3 := o₃ } onDisk recovered
                (((idle.notReady.trans kept.symm).trans kept₂.symm).trans kept₃.symm)

end Whole

end Budyk.Proof
