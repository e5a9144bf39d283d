import Budyk.Lib.Since
import Budyk.Spec.RuleHistory
import Mathlib.Data.List.Forall2

namespace Budyk.Proof
open Rules Spec

/-! The two measures of a history a rule's counters follow. -/

def sinceFire (past : List Evaluation) : List Evaluation := past.rtakeWhile fun v => !v.fired

def sinceEnd (past : List Evaluation) : List Evaluation := past.rtakeWhile fun v => !v.ends

theorem sinceFire_concat (past : List Evaluation) (v : Evaluation) :
    sinceFire (past ++ [v]) = if v.fired then [] else sinceFire past ++ [v] := by
  rw [sinceFire, List.rtakeWhile_concat]
  cases v.fired <;> rfl

theorem sinceEnd_concat (past : List Evaluation) (v : Evaluation) :
    sinceEnd (past ++ [v]) = if v.ends then [] else sinceEnd past ++ [v] := by
  rw [sinceEnd, List.rtakeWhile_concat]
  cases v.ends <;> rfl

theorem cooling_iff {cooldown : Int} {past : List Evaluation} :
    Cooling cooldown past ↔ past.any (·.fired) ∧ (sinceFire past).length < cooldown := by
  constructor
  · rintro ⟨older, last, since, rfl, fired, quiet, short⟩
    have recent : sinceFire (older ++ last :: since) = since := by
      rw [sinceFire, List.append_cons]
      apply Lib.rtakeWhile_split
      · intro v held
        simp [quiet v held]
      · intro v held
        rw [List.getLast?_concat, Option.mem_some_iff] at held
        simp [← held, fired]
    rw [recent]
    exact ⟨by simp [fired], short⟩
  · rintro ⟨found, short⟩
    obtain ⟨fire, held, fired⟩ := List.any_eq_true.mp found
    obtain ⟨older, last, split, fires⟩ :=
      Lib.rdropWhile_concat_last (p := fun v : Evaluation => !v.fired) ⟨fire, held, by simpa using fired⟩
    refine ⟨older, last, sinceFire past, ?_, by simpa using fires, ?_, short⟩
    · rw [List.append_cons, ← split, sinceFire, List.rdropWhile_append_rtakeWhile]
    · intro v held
      simpa using List.mem_rtakeWhile_imp held

theorem sustained_iff {past : List Evaluation} {hits : Nat} :
    Sustained past hits ↔ (sinceEnd past).countP Evaluation.isHit = hits := by
  constructor
  · rintro ⟨older, recent, rfl, ended, running, count⟩
    rw [sinceEnd, Lib.rtakeWhile_split _ _, count]
    · intro v held
      simp [running v held]
    · intro v held
      simp [ended v held]
  · intro count
    refine ⟨_, sinceEnd past, List.rdropWhile_append_rtakeWhile.symm, ?_, ?_, count⟩
    · intro v held
      simpa using Lib.getLast?_rdropWhile past v held
    · intro v held
      simpa using List.mem_rtakeWhile_imp held

/-! A rule's counters along its history. -/

structure TracksRule (args : NewRule) (past : List Evaluation) (r : LuaRule) : Prop where
  forTicks : r.forTicks = args.rule.forTicks
  cooldownTicks : r.cooldownTicks = args.rule.cooldownTicks
  hits : r.consecutiveHits = (sinceEnd past).countP Evaluation.isHit
  below : r.consecutiveHits < r.forTicks
  cooling : r.cooldownRemaining = if past.any (·.fired) then max 0 (r.cooldownTicks - (sinceFire past).length) else 0
  fires : r.fireCount = UInt64.ofNat (past.countP (·.fired))

theorem forTicks_pos (args : NewRule) : 1 ≤ args.rule.forTicks := by
  simp only [NewRule.rule]
  split <;> omega

theorem cooldownTicks_nonneg (args : NewRule) : 0 ≤ args.rule.cooldownTicks := by
  simp only [NewRule.rule]
  split <;> omega

theorem tracks_new (args : NewRule) : TracksRule args [] args.rule where
  forTicks := rfl
  cooldownTicks := rfl
  hits := rfl
  below := forTicks_pos args
  cooling := rfl
  fires := rfl

namespace TracksRule
variable {args : NewRule} {past : List Evaluation} {r : LuaRule}

theorem cooling_iff_pos (tracks : TracksRule args past r) :
    Cooling args.rule.cooldownTicks past ↔ 0 < r.cooldownRemaining := by
  rw [cooling_iff, tracks.cooling, tracks.cooldownTicks]
  split
  next found =>
    rw [found]
    simp only [true_and]
    omega
  next quiet => simp [quiet]

theorem cool (tracks : TracksRule args past r) (cooling : 0 < r.cooldownRemaining) :
    TracksRule args (past ++ [⟨none, false⟩]) r.cool where
  forTicks := tracks.forTicks
  cooldownTicks := tracks.cooldownTicks
  hits := by
    rw [sinceEnd_concat]
    simpa [Evaluation.ends, Evaluation.isHit, LuaRule.cool] using tracks.hits
  below := tracks.below
  cooling := by
    have before := tracks.cooling
    rw [sinceFire_concat]
    simp only [LuaRule.cool, List.any_append, List.any_cons, List.any_nil, Bool.or_false, Bool.false_eq_true, if_false,
      List.length_append, List.length_singleton]
    split at before
    next found =>
      rw [if_pos found]
      omega
    next => omega
  fires := by simpa [LuaRule.cool] using tracks.fires

theorem called {o : Outcome} {r' : LuaRule} (tracks : TracksRule args past r) (cooled : ¬0 < r.cooldownRemaining)
    (same : r' = { r with consecutiveHits := r'.consecutiveHits })
    (hits : r'.consecutiveHits = (sinceEnd (past ++ [⟨some o, false⟩])).countP Evaluation.isHit)
    (below : r'.consecutiveHits < r.forTicks) : TracksRule args (past ++ [⟨some o, false⟩]) r' where
  forTicks := by rw [same]; exact tracks.forTicks
  cooldownTicks := by rw [same]; exact tracks.cooldownTicks
  hits := hits
  below := by rw [same]; exact below
  cooling := by
    have before := tracks.cooling
    rw [sinceFire_concat, same]
    simp only [List.any_append, List.any_cons, List.any_nil, Bool.or_false, Bool.false_eq_true, if_false,
      List.length_append, List.length_singleton]
    split at before
    next found =>
      rw [if_pos found]
      omega
    next quiet => rw [if_neg quiet, before]
  fires := by
    rw [same]
    simpa using tracks.fires

theorem fire {o : Outcome} (tracks : TracksRule args past r) : TracksRule args (past ++ [⟨some o, true⟩]) r.fire where
  forTicks := tracks.forTicks
  cooldownTicks := tracks.cooldownTicks
  hits := by simp [sinceEnd_concat, Evaluation.ends, LuaRule.fire]
  below := by
    have positive := forTicks_pos args
    simp only [LuaRule.fire, tracks.forTicks]
    omega
  cooling := by
    have nonneg := cooldownTicks_nonneg args
    rw [← tracks.cooldownTicks] at nonneg
    simp only [LuaRule.fire, sinceFire_concat, if_true, List.any_append, List.any_cons, Bool.true_or, Bool.or_true,
      List.length_nil]
    omega
  fires := by
    simp only [LuaRule.fire, tracks.fires, List.countP_append, List.countP_singleton, if_true, UInt64.ofNat_add]
    rfl

end TracksRule

inductive Evaluates (r : LuaRule) : Outcome → LuaRule × Evaluation → Prop where
  | cooling (o : Outcome) (cooling : 0 < r.cooldownRemaining) : Evaluates r o (r.cool, ⟨none, false⟩)
  | skip (cooled : ¬0 < r.cooldownRemaining) : Evaluates r .skip (r, ⟨some .skip, false⟩)
  | broken {o : Outcome} (cooled : ¬0 < r.cooldownRemaining) (breaks : o = .miss ∨ o = .error) :
      Evaluates r o (r.reset, ⟨some o, false⟩)
  | sustain (cooled : ¬0 < r.cooldownRemaining) (short : r.consecutiveHits + 1 < r.forTicks) :
      Evaluates r .hit (r.sustain, ⟨some .hit, false⟩)
  | fire (cooled : ¬0 < r.cooldownRemaining) (enough : r.forTicks ≤ r.consecutiveHits + 1) :
      Evaluates r .hit (r.fire, ⟨some .hit, true⟩)

theorem evaluate_evaluates (r : LuaRule) (o : Outcome) : Evaluates r o (evaluate r o) := by
  unfold evaluate
  split
  next cooling => exact .cooling o cooling
  next cooled =>
    cases o with
    | skip => exact .skip cooled
    | miss => exact .broken cooled (.inl rfl)
    | error => exact .broken cooled (.inr rfl)
    | hit =>
        dsimp only
        split
        next short => exact .sustain cooled short
        next enough => exact .fire cooled (Int.not_lt.mp enough)

section Step
variable {args : NewRule} {past : List Evaluation} {r : LuaRule} {o : Outcome} {next : LuaRule × Evaluation}

theorem Evaluates.tracks (step : Evaluates r o next) (tracks : TracksRule args past r) :
    TracksRule args (past ++ [next.2]) next.1 := by
  have hits := tracks.hits
  cases step with
  | cooling o cooling => exact tracks.cool cooling
  | skip cooled =>
      apply tracks.called cooled rfl _ tracks.below
      simpa [sinceEnd_concat, Evaluation.ends, Evaluation.isHit] using hits
  | broken cooled breaks =>
      apply tracks.called cooled rfl
      · rcases breaks with rfl | rfl <;> simp [sinceEnd_concat, Evaluation.ends, LuaRule.reset]
      · have positive := forTicks_pos args
        simp only [LuaRule.reset, tracks.forTicks]
        omega
  | sustain cooled short =>
      apply tracks.called cooled rfl _ short
      simp [sinceEnd_concat, Evaluation.ends, Evaluation.isHit, LuaRule.sustain, hits]
  | fire cooled enough => exact tracks.fire

theorem Evaluates.right (step : Evaluates r o next) (tracks : TracksRule args past r) :
    RightAt args.rule.forTicks args.rule.cooldownTicks past next.2 := by
  rw [RightAt, tracks.cooling_iff_pos]
  have hits := tracks.hits
  have size := tracks.forTicks
  have below := tracks.below
  cases step with
  | cooling o cooling => simp [cooling]
  | skip cooled => simp [cooled]
  | broken cooled breaks => rcases breaks with rfl | rfl <;> simp [cooled]
  | sustain cooled short =>
      simp only [sustained_iff, cooled, reduceCtorEq, not_false_eq_true, true_and, Bool.false_eq_true, false_iff,
        not_exists, not_and]
      intro count same
      omega
  | fire cooled enough =>
      simp only [sustained_iff, cooled, reduceCtorEq, not_false_eq_true, true_and, true_iff]
      exact ⟨_, rfl, by omega⟩

end Step

theorem firesRight_concat {forTicks cooldown : Int} {past : List Evaluation} {v : Evaluation}
    (right : FiresRight forTicks cooldown past) (last : RightAt forTicks cooldown past v) :
    FiresRight forTicks cooldown (past ++ [v]) := by
  intro older w later split
  cases later using List.reverseRecOn with
  | nil =>
      obtain ⟨rfl, same⟩ := List.append_inj' split rfl
      cases same
      exact last
  | append_singleton later x =>
      rw [← List.cons_append, ← List.append_assoc] at split
      obtain ⟨same, -⟩ := List.append_inj' split rfl
      exact right older w later same

theorem alone_cons (r : LuaRule) (o : Outcome) (rest : List Outcome) :
    alone r (o :: rest) = ((alone (evaluate r o).1 rest).1, (evaluate r o).2 :: (alone (evaluate r o).1 rest).2) := rfl

theorem alone_right {args : NewRule} (outcomes : List Outcome) {past : List Evaluation} {r : LuaRule}
    (tracks : TracksRule args past r) (right : FiresRight args.rule.forTicks args.rule.cooldownTicks past) :
    TracksRule args (past ++ (alone r outcomes).2) (alone r outcomes).1 ∧
      FiresRight args.rule.forTicks args.rule.cooldownTicks (past ++ (alone r outcomes).2) := by
  induction outcomes generalizing past r with
  | nil => simpa [alone] using ⟨tracks, right⟩
  | cons o rest ih =>
      have step := evaluate_evaluates r o
      rw [alone_cons, List.append_cons]
      exact ih (step.tracks tracks) (firesRight_concat right (step.right tracks))

/-- From a state on, a rule cannot fire before its cooldown has run and the missing hits have come. -/
theorem alone_waits {args : NewRule} (outcomes : List Outcome) {past between later : List Evaluation} {r : LuaRule}
    {w : Evaluation} (tracks : TracksRule args past r) (split : (alone r outcomes).2 = between ++ w :: later)
    (fired : w.fired) : r.cooldownRemaining + (r.forTicks - r.consecutiveHits) ≤ between.length + 1 := by
  induction outcomes generalizing past between r with
  | nil => simp [alone] at split
  | cons o rest ih =>
      have step := evaluate_evaluates r o
      have after := step.tracks tracks
      rw [alone_cons] at split
      generalize evaluate r o = next at step after split
      have hits := tracks.hits
      cases between with
      | nil =>
          obtain ⟨rfl, -⟩ := List.cons.inj split
          cases step with
          | fire cooled enough =>
              simp only [List.length_nil]
              omega
          | cooling | skip | broken | sustain => cases fired
      | cons v between =>
          have later := ih after (List.cons.inj split).2
          rw [List.length_cons]
          cases step with
          | cooling o cooling =>
              simp only [LuaRule.cool] at later
              omega
          | skip cooled =>
              dsimp only at later
              omega
          | broken cooled breaks =>
              simp only [LuaRule.reset] at later
              omega
          | sustain cooled short =>
              simp only [LuaRule.sustain] at later
              omega
          | fire cooled enough => omega

theorem alone_apart {args : NewRule} (outcomes : List Outcome) {past : List Evaluation} {r : LuaRule}
    (tracks : TracksRule args past r) : Apart args.rule.forTicks args.rule.cooldownTicks (alone r outcomes).2 := by
  induction outcomes generalizing past r with
  | nil =>
      intro older v between w later split
      simp [alone] at split
  | cons o rest ih =>
      intro older v between w later split fired fired'
      have step := evaluate_evaluates r o
      have after := step.tracks tracks
      rw [alone_cons] at split
      cases older with
      | cons x older => exact ih after older v between w later (List.cons.inj split).2 fired fired'
      | nil =>
          obtain ⟨same, rest⟩ := List.cons.inj split
          have waits := alone_waits _ after rest fired'
          generalize evaluate r o = next at step same waits
          subst same
          cases step with
          | fire cooled enough =>
              simp only [LuaRule.fire, tracks.forTicks, tracks.cooldownTicks] at waits
              omega
          | cooling | skip | broken | sustain => cases fired

/-! The engine's loop takes a rule through the ticks it would go through alone. -/

section Engine
variable {W S : Type} {lua : Interpreter W S}

theorem eval_alone {r : LuaRule} {w : W} {o : Outcome} (agrees : ∀ o' ∈ (evaluationOf lua r w).outcome, o' = o) :
    evaluate r o = ((r.eval lua w).1, evaluationOf lua r w) := by
  unfold evaluationOf at agrees ⊢
  unfold evaluate LuaRule.eval
  split
  next cooling => simp
  next cooled =>
    simp only [cooled, if_false, Option.mem_some_iff, forall_eq'] at agrees ⊢
    rw [agrees]
    cases o with
    | hit =>
        dsimp only
        split <;> rfl
    | miss | skip | error => rfl

theorem evalRules_at (rules : List LuaRule) (w : W) (i : Nat) {r : LuaRule} (held : rules[i]? = some r) :
    (evaluationAt lua rules w i = [] ∧ (evalRules lua rules w).1[i]? = some r) ∨
    ∃ w', evaluationAt lua rules w i = [evaluationOf lua r w'] ∧
      (evalRules lua rules w).1[i]? = some (r.eval lua w').1 := by
  induction rules generalizing w i with
  | nil => simp at held
  | cons first rest ih =>
      rw [evalRules, evaluationAt]
      cases stop : (lua.stopping w).1 with
      | true => exact .inl ⟨by simp [stop], by simpa [stop] using held⟩
      | false =>
          cases i with
          | zero =>
              obtain rfl : first = r := by simpa using held
              exact .inr ⟨(lua.stopping w).2, by simp [stop], by simp [stop]⟩
          | succ i =>
              have tail : rest[i]? = some r := by simpa using held
              simpa [stop] using ih (first.eval lua (lua.stopping w).2).2.1 i tail

theorem tick_at (lua : Interpreter W S) (e : LuaEngine W) (s : S) (i : Nat) {r : LuaRule} (held : e.rules[i]? = some r) :
    (evaluated lua i e s = [] ∧ (e.tick lua s).rules[i]? = some r) ∨
    ∃ w, evaluated lua i e s = [evaluationOf lua r w] ∧ (e.tick lua s).rules[i]? = some (r.eval lua w).1 := by
  unfold evaluated LuaEngine.tick LuaEngine.evalTick
  cases e.state with
  | none => exact .inl ⟨rfl, held⟩
  | some w =>
      cases bound : (lua.bind s w).1 with
      | false => exact .inl ⟨by simp [bound], by simpa [bound] using held⟩
      | true => simpa [bound] using evalRules_at e.rules (lua.bind s w).2 i held

theorem run_alone (lua : Interpreter W S) (ticks : List S) {e : LuaEngine W} {i : Nat} {r : LuaRule}
    (held : e.rules[i]? = some r) :
    ∃ r', (e.run lua ticks).rules[i]? = some r' ∧ ∀ outcomes, Agree outcomes (ruleHistory lua i e ticks) →
      alone r outcomes = (r', ruleHistory lua i e ticks) := by
  induction ticks generalizing e r with
  | nil =>
      refine ⟨r, held, ?_⟩
      intro outcomes agree
      cases agree
      rfl
  | cons s rest ih =>
      obtain ⟨none, same⟩ | ⟨w, one, next⟩ := tick_at lua e s i held
      · obtain ⟨r', last, alone'⟩ := ih same
        refine ⟨r', last, ?_⟩
        rw [ruleHistory, Lib.reports, none]
        exact alone'
      · obtain ⟨r', last, alone'⟩ := ih next
        refine ⟨r', last, ?_⟩
        rw [ruleHistory, Lib.reports, one]
        intro outcomes agree
        cases agree with
        | cons agrees agree => rw [alone_cons, eval_alone agrees, alone' _ agree]; rfl

/-- Outcomes for a history: a tick within the cooldown is given one, which nothing looks at. -/
theorem exists_agree (history : List Evaluation) : ∃ outcomes, Agree outcomes history := by
  refine ⟨history.map fun v => v.outcome.getD .skip, ?_⟩
  rw [Agree, List.forall₂_map_left_iff, List.forall₂_same]
  intro v _ o called
  rw [called]
  rfl

end Engine

theorem rules_fire_exactly {W S : Type} (lua : Interpreter W S) (w : W) (added : List NewRule) (ticks : List S)
    (i : Fin added.length) :
    let args := added.get i
    let history := ruleHistory lua i (.loaded w added) ticks
    1 ≤ args.rule.forTicks ∧ 0 ≤ args.rule.cooldownTicks ∧
    FiresRight args.rule.forTicks args.rule.cooldownTicks history ∧
    Apart args.rule.forTicks args.rule.cooldownTicks history ∧
    ∃ r, ((LuaEngine.loaded w added).run lua ticks).rules[(i : Nat)]? = some r ∧
      (0 ≤ r.consecutiveHits ∧ r.consecutiveHits < args.rule.forTicks) ∧
      (0 ≤ r.cooldownRemaining ∧ r.cooldownRemaining ≤ args.rule.cooldownTicks) ∧
      r.fireCount = UInt64.ofNat (history.countP (·.fired)) ∧
      ∀ outcomes, Agree outcomes history → alone args.rule outcomes = (r, history) := by
  intro args history
  have held : (LuaEngine.loaded w added).rules[(i : Nat)]? = some args.rule := by simp [LuaEngine.loaded, args]
  obtain ⟨r, last, same⟩ := run_alone lua ticks held
  obtain ⟨outcomes, agree⟩ := exists_agree history
  have run : alone args.rule outcomes = (r, history) := same outcomes agree
  obtain ⟨tracks, right⟩ := alone_right outcomes (tracks_new args) (by intro past v later split; simp at split)
  have apart := alone_apart outcomes (tracks_new args)
  rw [run] at tracks right apart
  refine ⟨forTicks_pos args, cooldownTicks_nonneg args, right, apart, r, last, ?_, ?_, tracks.fires, same⟩
  · rw [← tracks.forTicks]
    exact ⟨by rw [tracks.hits]; omega, tracks.below⟩
  · have nonneg := cooldownTicks_nonneg args
    have cooling : r.cooldownRemaining = _ := tracks.cooling
    rw [show r.cooldownTicks = args.rule.cooldownTicks from tracks.cooldownTicks] at cooling
    split at cooling <;> omega

end Budyk.Proof
