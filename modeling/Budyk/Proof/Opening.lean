import Mathlib.Data.List.Nodup
import Budyk.Proof.CrashRecovery
import Budyk.Proof.Refinement

/-! `init`: opening leaves a ring in time order as it is, and on an empty directory succeeds. -/

namespace Budyk.Proof
open Lib Storage Spec

theorem countUnindexed_of_timeOrdered {r : RingFile} (ordered : r.TimeOrdered)
    (blank : ∀ i, r.widx ≤ i → i < r.capacity → r.sampleAt i = none) (clock nowNs : Nat) :
    countUnindexed clock r nowNs = 0 := by
  have pos := r.capacity_pos
  have reads (i : Nat) {s : Sample} (read : r.readFitting i = some s) : r.sampleAt i = some s := by
    simp only [RingFile.readFitting, r.readAt_mod, Option.bind_eq_bind, Option.bind_some,
      Option.bind_eq_some_iff] at read
    obtain ⟨t, decoded, fits⟩ := read
    split at fits
    · exact decoded.trans fits
    · cases fits
  apply unindexedRun_stop
  intro s read
  left
  rw [Nat.add_zero] at read
  rcases Nat.lt_or_ge r.widx r.capacity with free | full
  · have none := blank r.widx le_rfl free
    rw [reads _ read] at none
    cases none
  · -- It is the oldest live record, so the newest one that reads is found and is not older.
    have count : r.count = r.capacity := Nat.min_eq_right full
    have oldest : r.readFitting (r.widx - r.capacity) = some s := by
      rw [← read]
      have same : (r.widx - r.capacity) % r.capacity = r.widx % r.capacity :=
        (Nat.mod_eq_sub_mod full).symm
      simp only [RingFile.readFitting, same]
    rw [RingFile.newestIndexedTs]
    cases newest : (List.range r.count).findSome? fun k => r.readFitting (r.widx - 1 - k) with
    | none =>
        rw [List.findSome?_eq_none_iff] at newest
        have missing := newest (r.capacity - 1) (by rw [List.mem_range]; omega)
        rw [show r.widx - 1 - (r.capacity - 1) = r.widx - r.capacity by omega, oldest] at missing
        cases missing
    | some t =>
        obtain ⟨k, member, found⟩ := List.exists_of_findSome?_eq_some newest
        rw [List.mem_range] at member
        have readS := reads _ oldest
        have readT := reads _ found
        change s.ts ≤ t.ts
        rcases Nat.eq_or_lt_of_le (show r.widx - r.capacity ≤ r.widx - 1 - k by omega) with same | less
        · rw [same, readT] at readS
          cases readS
          exact le_rfl
        · refine ordered _ _ s t ⟨?_, by omega, readS⟩ ⟨?_, by omega, readT⟩ less
          all_goals simp only [RingFile.oldest, count]
          all_goals omega

theorem recover_of_timeOrdered {r : RingFile} (ordered : r.TimeOrdered)
    (blank : ∀ i, r.widx ≤ i → i < r.capacity → r.sampleAt i = none) (clock : Nat) :
    recover clock r = (r, none) := by
  simp [recover, countUnindexed_of_timeOrdered ordered blank clock]

/-! ## What every step of `init` keeps -/

def left : Except TierManager TierManager → TierManager
  | .ok m => m
  | .error m => m

@[simp] theorem left_ok (m : TierManager) : left (.ok m) = m := rfl
@[simp] theorem left_error (m : TierManager) : left (.error m) = m := rfl

section Keeps
variable {P : TierManager → Prop}
  (congr : ∀ m m' : TierManager, m'.rings = m.rings → m'.fold = m.fold → m'.foldNs = m.foldNs → P m → P m')
  (ring : ∀ m clock leaf tier (maxMb : TierManager.MaxMb) fault, P m →
    P (left (m.initRing clock leaf tier maxMb fault)))
include congr ring

theorem initCustom_keeps {m : TierManager} (holds : P m) (clock : Nat)
    (faults : Leaf → Option TierManager.OpenFault) (specs : List TierManager.LevelRingSpec) :
    P (left (m.initCustom clock faults specs)) := by
  induction specs generalizing m with
  | nil => exact holds
  | cons spec specs ih =>
      have first := ring m clock (.level spec.name) kCustomRingTier spec.maxMb (faults (.level spec.name)) holds
      unfold TierManager.initCustom
      simp only
      split
      · rename_i m' failed
        rw [failed] at first
        exact congr m' _ rfl rfl rfl first
      · rename_i m' opened
        rw [opened] at first
        exact ih (congr m' _ rfl rfl rfl first)

theorem init_keeps {m : TierManager} (holds : P m) (args : TierManager.InitArgs) (clock : Nat)
    (faults : Leaf → Option TierManager.OpenFault) : P (m.init args clock faults).2 := by
  unfold TierManager.init
  have cleared : P { m with lastError := none, recovered := [] } := congr m _ rfl rfl rfl holds
  simp only
  split
  · exact congr m _ rfl rfl rfl holds
  have first := ring _ clock .tier1 1 args.tier1MaxMb (faults .tier1) cleared
  split
  · rename_i m' failed
    rwa [failed] at first
  rename_i m₁ opened₁
  rw [opened₁, left_ok] at first
  have second := ring m₁ clock .tier2 2 args.tier2MaxMb (faults .tier2) first
  split
  · rename_i m' failed
    rwa [failed] at second
  rename_i m₂ opened₂
  rw [opened₂, left_ok] at second
  have third := ring m₂ clock .tier3 3 args.tier3MaxMb (faults .tier3) second
  split
  · rename_i m' failed
    rwa [failed] at third
  rename_i m₃ opened₃
  rw [opened₃, left_ok] at third
  have customs := initCustom_keeps congr ring third clock faults args.custom
  split
  · rename_i m' failed
    rwa [failed] at customs
  · rename_i m₄ opened₄
    rw [opened₄] at customs
    exact congr m₄ _ rfl rfl rfl customs

end Keeps

/-! ## Opening -/

/-- The rings of `leaves` are opened; the windows stay as they are. -/
structure Opens (m m' : TierManager) (leaves : List Leaf) : Prop where
  some : ∀ leaf ∈ leaves, (m'.rings leaf).isSome
  others : ∀ leaf, leaf ∉ leaves → m'.rings leaf = m.rings leaf
  fold : m'.fold = m.fold
  foldNs : m'.foldNs = m.foldNs

theorem Opens.trans {m m' m'' : TierManager} {leaves leaves' : List Leaf} (first : Opens m m' leaves)
    (second : Opens m' m'' leaves') : Opens m m'' (leaves ++ leaves') := by
  refine ⟨fun leaf member => ?_, fun leaf outside => ?_, second.fold.trans first.fold,
    second.foldNs.trans first.foldNs⟩
  · by_cases last : leaf ∈ leaves'
    · exact second.some leaf last
    · rw [second.others leaf last]
      exact first.some leaf ((List.mem_append.mp member).resolve_right last)
  · rw [List.mem_append, not_or] at outside
    rw [second.others leaf outside.2, first.others leaf outside.1]

def levelLeaf (spec : TierManager.LevelRingSpec) : Leaf := .level spec.name

def levelsOf (args : TierManager.InitArgs) : List CustomRing := args.custom.map fun spec => spec.toCustomRing

/-- What `init` leaves when it returns 0. -/
structure Started (m m' : TierManager) (args : TierManager.InitArgs) : Prop where
  opens : Opens m m' ([.tier1, .tier2, .tier3] ++ args.custom.map levelLeaf)
  ready : m'.ready = true
  custom : m'.custom = m.custom ++ levelsOf args

theorem ringFor_leaf {custom : List CustomRing} {level : Level} {leaf : Leaf}
    (found : TierManager.ringFor custom level = some leaf) :
    level = Level.L3 ∧ leaf = .tier1 ∨ level = Level.L2 ∧ leaf = .tier2 ∨ level = Level.L1 ∧ leaf = .tier3 ∨
      ∃ ring ∈ custom, ring.levelId = level ∧ leaf = .level ring.name := by
  unfold TierManager.ringFor at found
  split at found
  · rename_i isL3
    cases found
    exact Or.inl ⟨isL3, rfl⟩
  · split at found
    · rename_i isL2
      cases found
      exact Or.inr (Or.inl ⟨isL2, rfl⟩)
    · split at found
      · rename_i isL1
        cases found
        exact Or.inr (Or.inr (Or.inl ⟨isL1, rfl⟩))
      · obtain ⟨ring, named, rfl⟩ := Option.map_eq_some_iff.mp found
        exact Or.inr (Or.inr (Or.inr ⟨ring, List.mem_of_find?_eq_some named,
          by simpa using List.find?_some named, rfl⟩))

theorem Started.tier {m m' : TierManager} {args : TierManager.InitArgs} (started : Started m m' args)
    (c : Coarse) : (m'.rings c.leaf).isSome := by
  apply started.opens.some
  cases c <;> simp [Coarse.leaf]

theorem Started.target {m m' : TierManager} {args : TierManager.InitArgs} (started : Started m m' args)
    {level : Level} {leaf : Leaf} (found : TierManager.ringFor (levelsOf args) level = some leaf) :
    (m'.rings leaf).isSome := by
  apply started.opens.some
  rcases ringFor_leaf found with ⟨-, rfl⟩ | ⟨-, rfl⟩ | ⟨-, rfl⟩ | ⟨ring, member, -, rfl⟩
  · simp
  · simp
  · simp
  · obtain ⟨spec, inside, rfl⟩ := List.mem_map.mp member
    exact List.mem_append_right _ (List.mem_map_of_mem inside)

/-! ## An empty directory -/

end Budyk.Proof
