import Budyk.Daemon.LevelNames
import Budyk.Proof.Levels

/-! Which of the names `escalate()` accepts the scheduler resolves. -/

namespace Budyk.Proof
open Lib Rules Scheduler Daemon

variable (levels : NamedLevels)

def builtIn (name : List UInt8) : List (List UInt8 × Level) :=
  [(text "L1", Level.L1), (text "L2", Level.L2), (text "L3", Level.L3)].filter fun entry => sameIgnoringCase name entry.1

/-- The level goes by that name, in whatever case. -/
def GoesBy (name : List UInt8) (level : Level) : Prop :=
  (∃ entry ∈ builtIn name, entry.2 = level) ∨
    ∃ c ∈ levels.cfg.customLevels, sameIgnoringCase (levels.name c) name = true ∧ c.id = level

/-- What `escalate()` accepts is filed for the level of that name, and what it refuses is refused. -/
def TakesEffect (name : List UInt8) : Prop :=
  ∀ seconds, 1 ≤ seconds ∧ seconds ≤ 86400 →
    match lEscalate levels.levelNames name seconds with
    | .ok escalation => ∃ level, GoesBy levels name level ∧ ∀ s untilNs madeAtNs,
        requestByName levels s escalation.level untilNs madeAtNs = (request levels.cfg s level untilNs madeAtNs, true) ∧
          ((request levels.cfg s level untilNs madeAtNs).requests level).any (fun r => untilNs ≤ r.untilNs) = true
    | .error _ => ∀ s untilNs madeAtNs, requestByName levels s name untilNs madeAtNs = (s, false)

theorem request_files {cfg : SchedulerConfig} {level : Level} (known : isKnown cfg level = true) (s : Scheduler)
    (untilNs madeAtNs : Nat) :
    ((request cfg s level untilNs madeAtNs).requests level).any (fun r => untilNs ≤ r.untilNs) = true := by
  rw [request_eq]
  simp only [known, and_self, if_true]
  cases s.requests level with
  | none => simp [fileOne]
  | some pending =>
      simp only [fileOne, Option.any_some]
      split
      next kept =>
        simp only [outlasts, Bool.and_eq_true, decide_eq_true_eq, ge_iff_le] at kept
        simpa using kept.2
      next => simp

theorem cString_cString (name : List UInt8) : cString (cString name) = cString name := List.takeWhile_idem

theorem sameIgnoringCase_comm (a b : List UInt8) : sameIgnoringCase a b = sameIgnoringCase b a :=
  decide_eq_decide.mpr eq_comm

theorem sameIgnoringCase_cString (a name : List UInt8) : sameIgnoringCase a (cString name) = sameIgnoringCase a name := by
  rw [sameIgnoringCase, cString_cString]
  rfl

theorem builtIn_cString (name : List UInt8) : builtIn (cString name) = builtIn name := by
  simp only [builtIn, sameIgnoringCase_comm (cString name), sameIgnoringCase_cString, sameIgnoringCase_comm name]

variable {levels}

theorem isLevelName_iff (name : List UInt8) :
    isLevelName levels.levelNames name = true ↔
      builtIn name ≠ [] ∨ ∃ c ∈ levels.cfg.customLevels, sameIgnoringCase (levels.name c) name = true := by
  have known : builtIn name ≠ [] ↔ ∃ n ∈ [text "L1", text "L2", text "L3"], sameIgnoringCase n name = true := by
    simp only [builtIn, ne_eq, List.filter_eq_nil_iff, not_forall, not_not, exists_prop, List.mem_cons, List.not_mem_nil,
      or_false, exists_eq_or_imp, exists_eq_left, sameIgnoringCase_comm name]
  rw [isLevelName, List.any_eq_true, known, NamedLevels.levelNames]
  simp only [List.mem_append, or_and_right, exists_or, List.mem_map, exists_exists_and_eq_and]

theorem levelByName_some {name : List UInt8} {level : Level} (found : levelByName levels name = some level) :
    isKnown levels.cfg level = true ∧
      ((∃ entry ∈ builtIn name, entry.2 = level) ∨ ∃ c ∈ levels.cfg.customLevels, levels.name c = name ∧ c.id = level) := by
  unfold levelByName at found
  split at found
  next same =>
    cases found
    exact ⟨rfl, .inl ⟨(text "L1", Level.L1), by simp [builtIn, same], rfl⟩⟩
  split at found
  next same =>
    cases found
    exact ⟨rfl, .inl ⟨(text "L2", Level.L2), by simp [builtIn, same], rfl⟩⟩
  split at found
  next same =>
    cases found
    exact ⟨rfl, .inl ⟨(text "L3", Level.L3), by simp [builtIn, same], rfl⟩⟩
  next =>
    obtain ⟨c, first, rfl⟩ := Option.map_eq_some_iff.mp found
    have member := List.mem_of_find?_eq_some first
    exact ⟨isKnown_custom member, .inr ⟨c, member, by simpa using List.find?_some first, rfl⟩⟩

theorem levelByName_none {name : List UInt8} :
    levelByName levels name = none ↔ builtIn name = [] ∧ ∀ c ∈ levels.cfg.customLevels, levels.name c ≠ name := by
  have builtIn_nil : builtIn name = [] ↔ sameIgnoringCase name (text "L1") = false ∧
      sameIgnoringCase name (text "L2") = false ∧ sameIgnoringCase name (text "L3") = false := by
    simp [builtIn, List.filter_eq_nil_iff]
  have custom : ((levels.cfg.customLevels.find? fun c => levels.name c = name).map CustomLevel.id = none) ↔
      ∀ c ∈ levels.cfg.customLevels, levels.name c ≠ name := by
    rw [Option.map_eq_none_iff, List.find?_eq_none]
    simp
  rw [builtIn_nil, ← custom, levelByName]
  cases sameIgnoringCase name (text "L1") <;> cases sameIgnoringCase name (text "L2") <;>
    cases sameIgnoringCase name (text "L3") <;> simp

variable (levels)

/-- The name is a built-in level's in any case, a custom level's as it was written, or no level's in any case. -/
def Spelled (name : List UInt8) : Prop :=
  builtIn name ≠ [] ∨ (∃ c ∈ levels.cfg.customLevels, levels.name c = cString name) ∨
    ∀ c ∈ levels.cfg.customLevels, sameIgnoringCase (levels.name c) name = false

theorem requestByName_some {name : List UInt8} {level : Level} (found : levelByName levels name = some level)
    (s : Scheduler) (untilNs madeAtNs : Nat) :
    requestByName levels s name untilNs madeAtNs = (request levels.cfg s level untilNs madeAtNs, true) := by
  rw [requestByName, found]

theorem requestByName_none {name : List UInt8} (missed : levelByName levels name = none) (s : Scheduler)
    (untilNs madeAtNs : Nat) : requestByName levels s name untilNs madeAtNs = (s, false) := by
  rw [requestByName, missed]

theorem lEscalate_eq {seconds : Int} (duration : 1 ≤ seconds ∧ seconds ≤ 86400) (levelNames : List (List UInt8))
    (name : List UInt8) :
    lEscalate levelNames name seconds =
      if isLevelName levelNames (cString name) then .ok ⟨cString name, seconds⟩
      else .error (text "escalate: unknown level '" ++ cString name ++ text "'") := by
  have within : ¬(seconds < 1 ∨ seconds > 86400) := by omega
  unfold lEscalate
  simp only [within, if_false]
  cases isLevelName levelNames (cString name) <;> rfl

theorem isLevelName_cString (name : List UInt8) :
    isLevelName levels.levelNames (cString name) = isLevelName levels.levelNames name := by
  simp only [isLevelName, sameIgnoringCase_cString]

/-- An accepted name is resolved exactly when it is spelled as the configuration spells it. -/
theorem takes_effect_iff (name : List UInt8) : TakesEffect levels name ↔ Spelled levels name := by
  constructor
  · intro effect
    by_contra other
    obtain ⟨notBuiltIn, notExact, present⟩ : builtIn name = [] ∧ (∀ c ∈ levels.cfg.customLevels, levels.name c ≠ cString name) ∧
        ∃ c ∈ levels.cfg.customLevels, sameIgnoringCase (levels.name c) name = true := by
      simpa [Spelled] using other
    have accepted : isLevelName levels.levelNames (cString name) = true := by
      rw [isLevelName_cString, isLevelName_iff]
      exact .inr present
    have missed : levelByName levels (cString name) = none :=
      levelByName_none.mpr ⟨(builtIn_cString name).trans notBuiltIn, notExact⟩
    have held := effect 60 (by decide)
    rw [lEscalate_eq (by decide), if_pos accepted] at held
    obtain ⟨level, _, filed⟩ := held
    have resolved := (filed fresh 0 0).1
    rw [requestByName_none levels missed] at resolved
    exact Bool.false_ne_true (congrArg Prod.snd resolved)
  · intro spelled seconds duration
    rw [lEscalate_eq duration]
    by_cases accepted : isLevelName levels.levelNames (cString name) = true
    · rw [if_pos accepted]
      rw [isLevelName_cString, isLevelName_iff] at accepted
      cases found : levelByName levels (cString name) with
      | none =>
          obtain ⟨notBuiltIn, notExact⟩ := levelByName_none.mp found
          rw [builtIn_cString] at notBuiltIn
          obtain ⟨c, member, same⟩ := accepted.resolve_left (not_not.mpr notBuiltIn)
          rcases spelled with builtIn_ | ⟨precise, among, spelling⟩ | absent
          · exact absurd notBuiltIn builtIn_
          · exact absurd spelling (notExact precise among)
          · rw [absent c member] at same
            cases same
      | some level =>
          obtain ⟨known, named⟩ := levelByName_some found
          refine ⟨level, ?_, fun s untilNs madeAtNs => ⟨requestByName_some levels found s untilNs madeAtNs,
            request_files known s untilNs madeAtNs⟩⟩
          rw [builtIn_cString] at named
          refine named.imp id fun ⟨c, member, spelling, id_⟩ => ⟨c, member, ?_, id_⟩
          rw [spelling, sameIgnoringCase_comm, sameIgnoringCase_cString]
          exact decide_eq_true rfl
    · rw [if_neg accepted]
      rw [isLevelName_cString, isLevelName_iff, not_or, not_not] at accepted
      have missed : levelByName levels name = none := by
        refine levelByName_none.mpr ⟨accepted.1, fun c member spelling => accepted.2 ⟨c, member, ?_⟩⟩
        rw [spelling]
        exact decide_eq_true rfl
      exact fun s untilNs madeAtNs => requestByName_none levels missed s untilNs madeAtNs

def burst : NamedLevels where
  cfg := { customLevels := [⟨4, 500, 25, by decide, by decide⟩], ids_nodup := by decide }
  name := fun _ => text "burst"

theorem burst_upper_case : ¬TakesEffect burst (text "BURST") := by
  intro effect
  have held := effect 60 (by decide)
  have accepted : lEscalate burst.levelNames (text "BURST") 60 = .ok ⟨text "BURST", 60⟩ := rfl
  have missed : levelByName burst (text "BURST") = none := by decide
  rw [accepted] at held
  obtain ⟨level, _, filed⟩ := held
  have resolved := (filed fresh 0 0).1
  rw [requestByName_none burst missed] at resolved
  exact Bool.false_ne_true (congrArg Prod.snd resolved)

end Budyk.Proof
