import Mathlib.Data.List.Nodup
import Budyk.Lib.FirstBest
import Budyk.Spec.LevelHistory
import Budyk.Proof.StepBack

/-! The scheduler's flags and timers agree with the history at every tick. -/

namespace Budyk.Proof
open Lib Scheduler Spec

theorem checkAnomaly_eq (cfg : SchedulerConfig) (previous : AnomalyState) (s : Sample) :
    checkAnomaly cfg previous s = stateOf cfg previous s := by
  unfold checkAnomaly stateOf severities severity
  generalize hasGroup s.groups kGroupLoad = load
  generalize hasGroup s.groups kGroupCpu = cpu
  generalize hasGroup s.groups kGroupSwap = swap
  generalize Storage.DoubleArith.less cfg.criticalLoad1m s.load.avg1m = criticalLoad
  generalize Storage.DoubleArith.less cfg.criticalCpuPercent s.cpu.totalPercent = criticalCpu
  generalize Storage.DoubleArith.less cfg.criticalSwapPercent s.swap.usedPercent = criticalSwap
  generalize Storage.DoubleArith.less cfg.escalationLoad1m s.load.avg1m = highLoad
  generalize Storage.DoubleArith.less cfg.escalationCpuPercent s.cpu.totalPercent = highCpu
  generalize Storage.DoubleArith.less cfg.escalationSwapPercent s.swap.usedPercent = highSwap
  cases load <;> cases cpu <;> cases swap <;> revert criticalLoad criticalCpu criticalSwap highLoad highCpu highSwap <;>
    cases previous <;> decide

/-! ## The anomaly run and the escalation -/

structure TracksAnomaly (cfg : SchedulerConfig) (s : Scheduler) (ticks : List PastTick) : Prop where
  lastAnomaly : s.lastAnomalyNs =
    if cfg.mode = .onDemand then none else latest PastTick.now LevelHistory.Anomalous ticks
  runStart : cfg.mode ≠ .onDemand → s.escalated = false →
    s.anomalyRunStartNs = stretchStart PastTick.now LevelHistory.Anomalous ticks
  escalated : s.escalated = true ↔ cfg.mode ≠ .onDemand ∧ 0 < cfg.escalateNs ∧
    Held PastTick.now LevelHistory.Anomalous cfg.escalateNs cfg.graceNs ticks

theorem elapsed_eq {now start : Nat} (order : start ≤ now) (small : now < 2 ^ 64) : elapsed now start = now - start := by
  unfold elapsed
  omega

namespace TracksAnomaly
variable {cfg : SchedulerConfig} {s : Scheduler} {ticks : List PastTick} {t : PastTick}

theorem calm (tracks : TracksAnomaly cfg s ticks) (calm : s.escalated = false) (adaptive : cfg.mode ≠ .onDemand)
    (on : 0 < cfg.escalateNs) :
    ¬Held PastTick.now LevelHistory.Anomalous cfg.escalateNs cfg.graceNs ticks := by
  intro held
  have escalated := tracks.escalated.mpr ⟨adaptive, on, held⟩
  rw [calm] at escalated
  cases escalated

theorem onDemand (tracks : TracksAnomaly cfg s ticks) (mode : cfg.mode = .onDemand) (now : Nat) (t : PastTick) :
    TracksAnomaly cfg (endEscalation cfg (trackAnomaly cfg s now) now) (ticks ++ [t]) := by
  have calm : s.escalated = false := by
    by_contra escalated
    exact (tracks.escalated.mp (by simpa using escalated)).1 mode
  have same : endEscalation cfg (trackAnomaly cfg s now) now = s := by
    rw [trackAnomaly, if_pos mode, endEscalation, if_neg]
    simp [calm]
  rw [same]
  refine ⟨?_, fun adaptive => absurd mode adaptive, ?_⟩
  · rw [tracks.lastAnomaly, if_pos mode, if_pos mode]
  · simp [calm, mode]

theorem anomalous (tracks : TracksAnomaly cfg s ticks) (adaptive : cfg.mode ≠ .onDemand)
    (sorted : (ticks ++ [t]).Pairwise fun t u => t.now ≤ u.now) (small : t.now < 2 ^ 64)
    (state : t.state = s.anomaly) (bad : s.anomaly ≠ .normal) :
    TracksAnomaly cfg (endEscalation cfg (trackAnomaly cfg s t.now) t.now) (ticks ++ [t]) := by
  have mark : LevelHistory.Anomalous t = true := by simp [LevelHistory.Anomalous, state, bad]
  have same : endEscalation cfg (trackAnomaly cfg s t.now) t.now = { s with
      anomalyRunStartNs := some (s.anomalyRunStartNs.getD t.now)
      lastAnomalyNs := some t.now
      escalated := s.escalated || decide (cfg.escalateNs > 0 ∧
        elapsed t.now (s.anomalyRunStartNs.getD t.now) ≥ cfg.escalateNs) } := by
    rw [trackAnomaly, if_neg adaptive, if_pos bad, endEscalation, if_neg]
    exact fun ended => bad ended.2.1
  rw [same]
  refine ⟨?_, fun _ calm => ?_, ?_⟩
  · rw [if_neg adaptive, latest_concat, if_pos mark]
  · rw [stretchStart_concat, if_pos mark, ← tracks.runStart adaptive]
    exact (Bool.or_eq_false_iff.mp calm).1
  · simp only [Bool.or_eq_true, decide_eq_true_eq]
    rw [held_concat_of_marked sorted mark]
    cases before : s.escalated with
    | true =>
        obtain ⟨-, on, held⟩ := tracks.escalated.mp before
        simp [adaptive, on, held]
    | false =>
        rw [tracks.runStart adaptive before]
        have order : (stretchStart PastTick.now LevelHistory.Anomalous ticks).getD t.now ≤ t.now :=
          stretchStart_le sorted
        rw [elapsed_eq order small]
        constructor
        · rintro (impossible | ⟨on, lasted⟩)
          · cases impossible
          · exact ⟨adaptive, on, Or.inr lasted⟩
        · rintro ⟨-, on, held | lasted⟩
          · exact absurd held (tracks.calm before adaptive on)
          · exact Or.inr ⟨on, lasted⟩

theorem broken (tracks : TracksAnomaly cfg s ticks) (adaptive : cfg.mode ≠ .onDemand)
    (state : t.state = s.anomaly) (normal : s.anomaly = .normal) (none : s.escalated = false) :
    TracksAnomaly cfg (endEscalation cfg (trackAnomaly cfg s t.now) t.now) (ticks ++ [t]) := by
  have calm : ¬LevelHistory.Anomalous t = true := by simp [LevelHistory.Anomalous, state, normal]
  have same : endEscalation cfg (trackAnomaly cfg s t.now) t.now = { s with anomalyRunStartNs := .none } := by
    rw [trackAnomaly, if_neg adaptive, if_neg (not_not.mpr normal), if_pos (by simp [none]), endEscalation, if_neg]
    simp [none]
  rw [same]
  refine ⟨?_, fun _ _ => ?_, ?_⟩
  · rw [latest_concat, if_neg calm]
    exact tracks.lastAnomaly
  · rw [stretchStart_concat, if_neg calm]
  · rw [held_concat_of_calm calm]
    simp only [none, Bool.false_eq_true, false_iff]
    rintro ⟨-, on, held, -⟩
    exact tracks.calm none adaptive on held

theorem pausing (tracks : TracksAnomaly cfg s ticks) (adaptive : cfg.mode ≠ .onDemand)
    (sorted : (ticks ++ [t]).Pairwise fun t u => t.now ≤ u.now)
    (state : t.state = s.anomaly) (normal : s.anomaly = .normal) (held : s.escalated = true) :
    TracksAnomaly cfg (endEscalation cfg (trackAnomaly cfg s t.now) t.now) (ticks ++ [t]) := by
  have calm : ¬LevelHistory.Anomalous t = true := by simp [LevelHistory.Anomalous, state, normal]
  obtain ⟨-, on, holds⟩ := tracks.escalated.mp held
  obtain ⟨last, found⟩ := latest_of_held holds
  have seen : s.lastAnomalyNs = some last := by rw [tracks.lastAnomaly, if_neg adaptive, found]
  have order : last ≤ t.now := latest_le sorted found
  have same : endEscalation cfg (trackAnomaly cfg s t.now) t.now =
      if t.now - last ≥ cfg.graceNs then { s with escalated := false, anomalyRunStartNs := none } else s := by
    rw [trackAnomaly, if_neg adaptive, if_neg (not_not.mpr normal), if_neg (by simp [held]), endEscalation]
    simp only [held, normal, seen, Option.getD_some, true_and, Nat.not_lt.mpr order, false_or]
  have iff : Held PastTick.now LevelHistory.Anomalous cfg.escalateNs cfg.graceNs (ticks ++ [t]) ↔
      t.now - last < cfg.graceNs := by
    rw [held_concat_of_calm calm, found]
    simp [holds]
  have latestEq : s.lastAnomalyNs =
      if cfg.mode = .onDemand then none else latest PastTick.now LevelHistory.Anomalous (ticks ++ [t]) := by
    rw [latest_concat, if_neg calm]
    exact tracks.lastAnomaly
  rw [same]
  split
  next gone =>
    refine ⟨latestEq, fun _ _ => ?_, ?_⟩
    · rw [stretchStart_concat, if_neg calm]
    · rw [iff]
      simp only [Bool.false_eq_true, false_iff]
      omega
  next lasts =>
    refine ⟨latestEq, fun _ calm' => absurd held (by simp [calm']), ?_⟩
    rw [iff]
    simp only [held, true_iff]
    exact ⟨adaptive, on, Nat.not_le.mp lasts⟩

theorem settle (tracks : TracksAnomaly cfg s ticks)
    (sorted : (ticks ++ [t]).Pairwise fun t u => t.now ≤ u.now) (small : t.now < 2 ^ 64)
    (state : t.state = s.anomaly) :
    TracksAnomaly cfg (endEscalation cfg (trackAnomaly cfg s t.now) t.now) (ticks ++ [t]) := by
  by_cases mode : cfg.mode = .onDemand
  · exact tracks.onDemand mode t.now t
  by_cases bad : s.anomaly = .normal
  · cases held : s.escalated with
    | false => exact tracks.broken mode state bad held
    | true => exact tracks.pausing mode sorted state bad held
  · exact tracks.anomalous mode sorted small state bad

end TracksAnomaly

/-! ## What the scheduler keeps of the history -/

structure Tracks (cfg : SchedulerConfig) (clock : Nat) (s : Scheduler) (h : LevelHistory) : Prop
    extends TracksAnomaly cfg s h.ticks where
  clients : s.clientCount = h.clients
  anomaly : s.anomaly = h.state
  lastTick : s.lastTickNs ≤ clock
  sorted : h.ticks.Pairwise fun t u => t.now ≤ u.now
  bound : ∀ t ∈ h.ticks, t.now ≤ clock
  lastClient : s.lastClientActiveNs = latest PastTick.now (fun t => 0 < t.clients) h.ticks
  requests : ∀ id, deadline s id = (hitsFor cfg h.requests id).max?
  made : ∀ id p, s.requests id = some p → p.madeNs ≤ clock

theorem hitsFor_concat (cfg : SchedulerConfig) (requests : List (Level × Nat)) (level : Level) (untilNs : Nat)
    (id : Level) : hitsFor cfg (requests ++ [(level, untilNs)]) id =
      hitsFor cfg requests id ++ if isKnown cfg level ∧ id = level then [untilNs] else [] := by
  unfold hitsFor
  by_cases same : id = level
  · subst same
    cases isKnown cfg id <;> simp
  · cases isKnown cfg id <;> simp [same, Ne.symm same]

theorem max?_concat (us : List Nat) (u : Nat) : (us ++ [u]).max? = Option.merge max us.max? (some u) := by
  cases us with
  | nil => rfl
  | cons v us =>
      rw [List.cons_append, List.max?_cons', List.max?_cons', List.foldl_append]
      rfl

theorem state_concat (h : LevelHistory) (t : PastTick) : { h with ticks := h.ticks ++ [t] }.state = t.state := by
  simp [LevelHistory.state]

section Unchanged
variable (cfg : SchedulerConfig) (s : Scheduler) (now : Nat)

theorem trackAnomaly_same : (trackAnomaly cfg s now).anomaly = s.anomaly ∧
    (trackAnomaly cfg s now).clientCount = s.clientCount ∧ (trackAnomaly cfg s now).lastTickNs = s.lastTickNs ∧
    (trackAnomaly cfg s now).lastClientActiveNs = s.lastClientActiveNs := by
  unfold trackAnomaly
  split_ifs <;> exact ⟨rfl, rfl, rfl, rfl⟩

theorem endEscalation_same : (endEscalation cfg s now).anomaly = s.anomaly ∧
    (endEscalation cfg s now).clientCount = s.clientCount ∧ (endEscalation cfg s now).lastTickNs = s.lastTickNs ∧
    (endEscalation cfg s now).lastClientActiveNs = s.lastClientActiveNs := by
  simp only [endEscalation]
  split_ifs <;> exact ⟨rfl, rfl, rfl, rfl⟩

end Unchanged

namespace Tracks
variable {cfg : SchedulerConfig} {clock : Nat} {s : Scheduler} {h : LevelHistory}

theorem start : Tracks cfg 0 fresh LevelHistory.empty where
  lastAnomaly := by simp [fresh, LevelHistory.empty, latest]
  runStart := fun _ _ => rfl
  escalated := by
    simp only [fresh, Bool.false_eq_true, false_iff]
    rintro ⟨-, -, held⟩
    exact not_held_nil _ _ held
  clients := rfl
  anomaly := rfl
  lastTick := Nat.le_refl _
  sorted := List.Pairwise.nil
  bound := fun _ member => by cases member
  lastClient := rfl
  requests := fun id => by simp [deadline, fresh, LevelHistory.empty, hitsFor]
  made := fun _ _ found => by cases found

theorem request (tracks : Tracks cfg clock s h) (level : Level) (untilNs : Nat) {madeAtNs later : Nat}
    (made : madeAtNs = 0 ∨ clock ≤ madeAtNs) (order : clock ≤ later) (low : madeAtNs ≤ later) :
    Tracks cfg later (request cfg s level untilNs madeAtNs) (h.record cfg (.request level untilNs madeAtNs)) := by
  have fresh (p : Request) (found : s.requests level = some p) : madeAtNs ≠ 0 → madeAtNs < p.madeNs →
      p.untilNs ≤ untilNs := by
    have old := tracks.made level p found
    omega
  have deadlines (id : Level) : deadline (Scheduler.request cfg s level untilNs madeAtNs) id =
      dueAfter cfg s id (.request level untilNs madeAtNs) :=
    deadline_takeTurn (show Timed (.request level untilNs madeAtNs) from trivial) fresh id
  rw [request_eq] at deadlines ⊢
  refine { tracks with
    lastTick := tracks.lastTick.trans order
    bound := fun t member => (tracks.bound t member).trans order
    requests := fun id => ?_
    made := fun id p found => ?_ }
  · rw [deadlines id, dueAfter, tracks.requests id]
    change _ = (hitsFor cfg (h.requests ++ [(level, untilNs)]) id).max?
    rw [hitsFor_concat]
    split
    · exact (max?_concat _ _).symm
    · rw [List.append_nil]
  · change (if isKnown cfg level ∧ id = level then _ else _) = some p at found
    split at found
    · rw [fileOne] at found
      split at found
      · exact (tracks.made id p found).trans order
      · cases found
        exact low
    · exact (tracks.made id p found).trans order

theorem tick (tracks : Tracks cfg clock s h) {x : Sample} (order : clock ≤ x.ts) :
    Tracks cfg x.ts (tick cfg s x) (h.record cfg (.tick x)) := by
  have onward : s.stepBack x.ts = s := stepBack_of_le (tracks.lastTick.trans order)
  have sorted : (h.ticks ++ [(⟨x.ts, stateOf cfg h.state x, h.clients⟩ : PastTick)]).Pairwise
      fun t u => t.now ≤ u.now := by
    refine List.pairwise_append.mpr ⟨tracks.sorted, List.pairwise_singleton _ _, fun t member u last => ?_⟩
    rw [List.mem_singleton.mp last]
    exact (tracks.bound t member).trans order
  have checked : TracksAnomaly cfg { s with lastTickNs := x.ts, anomaly := stateOf cfg h.state x } h.ticks :=
    ⟨tracks.lastAnomaly, tracks.runStart, tracks.escalated⟩
  have settled := checked.settle sorted x.ts_lt rfl
  have requests : (Scheduler.tick cfg s x).requests = s.requests := by rw [tick_requests, onward]
  rw [Scheduler.tick, onward, settle, checkAnomaly_eq, tracks.anomaly] at requests ⊢
  obtain ⟨anomaly, clients, lastTick, lastClient⟩ := trackAnomaly_same cfg
    { s with lastTickNs := x.ts, anomaly := stateOf cfg h.state x } x.ts
  obtain ⟨anomaly', clients', lastTick', lastClient'⟩ := endEscalation_same cfg (trackAnomaly cfg
    { s with lastTickNs := x.ts, anomaly := stateOf cfg h.state x } x.ts) x.ts
  generalize endEscalation cfg (trackAnomaly cfg
    { s with lastTickNs := x.ts, anomaly := stateOf cfg h.state x } x.ts) x.ts = e at *
  have noted : (e.noteClients x.ts).lastClientActiveNs =
      if 0 < h.clients then some x.ts else s.lastClientActiveNs := by
    rw [noteClients, clients', clients, tracks.clients]
    split
    · rfl
    · exact lastClient'.trans lastClient
  have kept : (e.noteClients x.ts).clientCount = e.clientCount ∧ (e.noteClients x.ts).anomaly = e.anomaly ∧
      (e.noteClients x.ts).lastTickNs = e.lastTickNs ∧ TracksAnomaly cfg (e.noteClients x.ts)
        (h.ticks ++ [(⟨x.ts, stateOf cfg h.state x, h.clients⟩ : PastTick)]) := by
    rw [noteClients]
    split
    · exact ⟨rfl, rfl, rfl, ⟨settled.lastAnomaly, settled.runStart, settled.escalated⟩⟩
    · exact ⟨rfl, rfl, rfl, settled⟩
  obtain ⟨clients'', anomaly'', lastTick'', settled⟩ := kept
  exact
    { lastAnomaly := settled.lastAnomaly
      runStart := settled.runStart
      escalated := settled.escalated
      clients := clients''.trans (clients'.trans (clients.trans tracks.clients))
      anomaly := (anomaly''.trans (anomaly'.trans anomaly)).trans
        (state_concat h ⟨x.ts, stateOf cfg h.state x, h.clients⟩).symm
      lastTick := Nat.le_of_eq (lastTick''.trans (lastTick'.trans lastTick))
      sorted := sorted
      bound := by
        intro t member
        rcases List.mem_append.mp member with old | new
        · exact (tracks.bound t old).trans order
        · rw [List.mem_singleton.mp new]
      lastClient := by
        refine noted.trans ?_
        change _ = latest PastTick.now _ (h.ticks ++ [_])
        rw [latest_concat, ← tracks.lastClient]
        simp only [decide_eq_true_eq]
      requests := by
        intro id
        exact (congrArg (fun q => (q id).map Request.untilNs) requests).trans (tracks.requests id)
      made := by
        intro id p found
        rw [requests] at found
        exact (tracks.made id p found).trans order }

theorem run {events later : List Event} (tracks : Tracks cfg clock s h) (inOrder : InOrder clock (events ++ later)) :
    ∃ clock', Tracks cfg clock' (run cfg s events) (events.foldl (LevelHistory.record cfg) h) ∧
      InOrder clock' later := by
  induction events generalizing clock s h with
  | nil => exact ⟨clock, tracks, inOrder⟩
  | cons e rest ih =>
      cases e with
      | setClientCount n =>
          refine ih ?_ inOrder
          refine { tracks with clients := ?_ }
          simp only [step, setClientCount, LevelHistory.record]
          split <;> omega
      | request level untilNs madeAtNs =>
          rcases inOrder with ⟨zero, inOrder⟩ | ⟨order, inOrder⟩
          · exact ih (tracks.request level untilNs (Or.inl zero) (Nat.le_refl _) (by omega)) inOrder
          · exact ih (tracks.request level untilNs (Or.inr order) order (Nat.le_refl _)) inOrder
      | clockSteppedForward byNs => exact absurd inOrder id
      | tick x => exact ih (tracks.tick inOrder.1) inOrder.2

end Tracks

/-! ## The best of the active levels -/

section Best
variable {cfg : SchedulerConfig}

theorem custom_ne (c : CustomLevel) : c.id ≠ Level.L1 ∧ c.id ≠ Level.L2 ∧ c.id ≠ Level.L3 := by
  have low := c.id_ge
  refine ⟨?_, ?_, ?_⟩ <;> intro same <;> rw [same] at low <;> exact absurd low (by decide)

theorem findCustom_eq {c : CustomLevel} (member : c ∈ cfg.customLevels) : findCustom cfg c.id = some c := by
  cases found : findCustom cfg c.id with
  | none =>
      have missed := List.find?_eq_none.mp found c member
      simp at missed
  | some c' =>
      have same : c'.id = c.id := by simpa using List.find?_some found
      exact congrArg some (List.inj_on_of_nodup_map cfg.ids_nodup (List.mem_of_find?_eq_some found) member same)

theorem priority_custom {c : CustomLevel} (member : c ∈ cfg.customLevels) : priority cfg c.id = c.priority := by
  obtain ⟨l1, l2, l3⟩ := custom_ne c
  rw [priority, if_neg l1, if_neg l2, if_neg l3, findCustom_eq member]
  rfl

theorem isKnown_custom {c : CustomLevel} (member : c ∈ cfg.customLevels) : isKnown cfg c.id = true := by
  have low : (1 : Level) ≤ c.id := UInt8.le_trans (by decide) c.id_ge
  simp [isKnown, findCustom_eq member, low, c.id_le]

def bestOf (cfg : SchedulerConfig) (level : Level) : Best := ⟨level, priority cfg level, intervalMs cfg level⟩

def better (cfg : SchedulerConfig) (best level : Level) : Level :=
  if rank cfg best < rank cfg level then level else best

theorem consider_eq (best level : Level) :
    consider cfg (bestOf cfg best) level (priority cfg level) = bestOf cfg (better cfg best level) := by
  have iff : rank cfg best < rank cfg level ↔ priority cfg level > priority cfg best ∨
      priority cfg level = priority cfg best ∧ intervalMs cfg level < intervalMs cfg best := by
    rw [rank, rank, Prod.Lex.toLex_lt_toLex]
    simp only
    omega
  unfold better
  by_cases gt : rank cfg best < rank cfg level
  · rw [if_pos gt]
    exact if_pos (iff.mp gt)
  · rw [if_neg gt]
    exact if_neg (iff.not.mp gt)

theorem foldl_customs (s : Scheduler) (now : Nat) (customs : List CustomLevel)
    (members : ∀ c ∈ customs, c ∈ cfg.customLevels) (best : Level) :
    customs.foldl (fun best c => if s.requested now c.id then consider cfg best c.id c.priority else best)
        (bestOf cfg best) =
      bestOf cfg (((customs.map CustomLevel.id).filter (s.requested now)).foldl (better cfg) best) := by
  induction customs generalizing best with
  | nil => rfl
  | cons c customs ih =>
      have rest := fun c' member => members c' (List.mem_cons_of_mem c member)
      have member := members c List.mem_cons_self
      rw [List.foldl_cons, List.map_cons, List.filter_cons, ← priority_custom member, consider_eq]
      split
      · exact ih rest (better cfg best c.id)
      · exact ih rest best

def isActive (cfg : SchedulerConfig) (s : Scheduler) (now : Nat) (level : Level) : Bool :=
  if level = Level.L1 then true
  else if level = Level.L2 then l2Active cfg s now
  else if level = Level.L3 then l3Active cfg s now
  else s.requested now level

def activeLevels (cfg : SchedulerConfig) (s : Scheduler) (now : Nat) : List Level :=
  ([Level.L2, Level.L3] ++ cfg.customLevels.map CustomLevel.id).filter (isActive cfg s now)

theorem filter_levels (s : Scheduler) (now : Nat) :
    (levels cfg).filter (isActive cfg s now) = Level.L1 :: activeLevels cfg s now := rfl

theorem activeLevels_eq (s : Scheduler) (now : Nat) : activeLevels cfg s now =
    (if l2Active cfg s now then [Level.L2] else []) ++ (if l3Active cfg s now then [Level.L3] else []) ++
      (cfg.customLevels.map CustomLevel.id).filter (s.requested now) := by
  have customs : (cfg.customLevels.map CustomLevel.id).filter (isActive cfg s now) =
      (cfg.customLevels.map CustomLevel.id).filter (s.requested now) := by
    apply List.filter_congr
    intro level member
    obtain ⟨c, -, rfl⟩ := List.mem_map.mp member
    obtain ⟨l1, l2, l3⟩ := custom_ne c
    rw [isActive, if_neg l1, if_neg l2, if_neg l3]
  have l2 : isActive cfg s now Level.L2 = l2Active cfg s now := rfl
  have l3 : isActive cfg s now Level.L3 = l3Active cfg s now := rfl
  rw [activeLevels, List.filter_append, customs]
  cases l2' : l2Active cfg s now <;> cases l3' : l3Active cfg s now <;> simp [l2, l3, l2', l3']

theorem select_eq_foldl (s : Scheduler) (now : Nat) :
    select cfg s now = (activeLevels cfg s now).foldl (better cfg) Level.L1 := by
  have second (best : Level) : consider cfg (bestOf cfg best) Level.L2 kPriorityL2 =
      bestOf cfg (better cfg best Level.L2) := consider_eq best Level.L2
  have third (best : Level) : consider cfg (bestOf cfg best) Level.L3 kPriorityL3 =
      bestOf cfg (better cfg best Level.L3) := consider_eq best Level.L3
  have rest (best : Level) := foldl_customs s now cfg.customLevels (fun _ member => member) best
  rw [activeLevels_eq, List.foldl_append, List.foldl_append, select]
  change (List.foldl _ (if _ then consider cfg (if _ then consider cfg (bestOf cfg Level.L1) _ _
    else bestOf cfg Level.L1) _ _ else (if _ then consider cfg (bestOf cfg Level.L1) _ _
    else bestOf cfg Level.L1)) _).level = _
  split <;> split <;> simp only [second, third, rest] <;> rfl

theorem select_eq (s : Scheduler) (now : Nat) :
    ((levels cfg).filter (isActive cfg s now)).argmax (rank cfg) = some (select cfg s now) := by
  rw [filter_levels, argmax_cons_eq_foldl, select_eq_foldl]
  rfl

end Best

/-! ## Active by the flags, active by the history -/

def Lasting (cfg : SchedulerConfig) (s : Scheduler) (now : Nat) : Prop :=
  s.escalated = true → s.anomaly ≠ .normal ∨
    now ≥ s.lastAnomalyNs.getD 0 ∧ now - s.lastAnomalyNs.getD 0 < cfg.graceNs

theorem lasting_endEscalation (cfg : SchedulerConfig) (s : Scheduler) (now : Nat) :
    Lasting cfg (endEscalation cfg s now) now := by
  simp only [endEscalation]
  split
  next => exact fun escalated => by cases escalated
  next lasts =>
    intro escalated
    by_contra ended
    simp only [not_or, not_not, not_and_or] at ended
    exact lasts ⟨escalated, ended.1, by omega⟩

theorem lasting_tick (cfg : SchedulerConfig) (s : Scheduler) (x : Sample) : Lasting cfg (tick cfg s x) x.ts := by
  have ended := lasting_endEscalation cfg (trackAnomaly cfg { s.stepBack x.ts with
    lastTickNs := x.ts, anomaly := checkAnomaly cfg (s.stepBack x.ts).anomaly x } x.ts) x.ts
  simp only [tick, settle, noteClients]
  split <;> exact ended

namespace Tracks
variable {cfg : SchedulerConfig} {now : Nat} {s : Scheduler} {h : LevelHistory}

theorem requested_iff (tracks : Tracks cfg now s h) {level : Level} (known : isKnown cfg level = true) :
    s.requested now level = true ↔ h.Requested now level := by
  have same := tracks.requests level
  have hits (u : Nat) : u ∈ hitsFor cfg h.requests level ↔ (level, u) ∈ h.requests := by
    simp [hitsFor, known]
  have asked : s.requested now level = true ↔ ∃ t ∈ deadline s level, now ≤ t := by
    unfold Scheduler.requested deadline
    cases s.requests level <;> simp
  rw [asked, same]
  constructor
  · rintro ⟨t, found, late⟩
    exact ⟨t, (hits t).mp (List.max?_mem found), late⟩
  · rintro ⟨u, member, late⟩
    have member := (hits u).mpr member
    cases top : (hitsFor cfg h.requests level).max? with
    | none =>
        rw [List.max?_eq_none_iff.mp top] at member
        cases member
    | some t => exact ⟨t, rfl, late.trans ((List.max?_eq_some_iff.mp top).2 u member)⟩

theorem within_iff (tracks : Tracks cfg now s h) (marked : PastTick → Bool) (window : Nat) :
    within window now (latest PastTick.now marked h.ticks) = true ↔
      ∃ t ∈ h.ticks, marked t = true ∧ now - t.now < window := by
  rw [← within_latest tracks.sorted]
  cases found : latest PastTick.now marked h.ticks with
  | none => simp [within]
  | some t =>
      obtain ⟨before, y, after, split, -, -, rfl⟩ := latest_eq_some found
      have order := tracks.bound y (by simp [split])
      simp [within, order]

theorem l2Active_iff (tracks : Tracks cfg now s h) : l2Active cfg s now = true ↔ h.L2Active cfg now := by
  have recent : within cfg.hysteresisNs now s.lastAnomalyNs = true ↔
      cfg.mode ≠ .onDemand ∧ ∃ t ∈ h.ticks, t.state ≠ .normal ∧ now - t.now < cfg.hysteresisNs := by
    rw [tracks.lastAnomaly]
    by_cases mode : cfg.mode = .onDemand
    · simp [mode, within]
    · rw [if_neg mode, tracks.within_iff]
      simp [mode, LevelHistory.Anomalous]
  have asked := tracks.requested_iff (show isKnown cfg Level.L2 = true from rfl)
  simp only [l2Active, LevelHistory.L2Active, Bool.or_eq_true, Bool.and_eq_true, decide_eq_true_eq, recent, asked,
    tracks.anomaly, ← and_or_left, or_assoc]

theorem l3Active_iff (tracks : Tracks cfg now s h) (lasting : Lasting cfg s now) :
    l3Active cfg s now = true ↔ h.L3Active cfg now := by
  have recent : within cfg.graceNs now s.lastClientActiveNs = true ↔
      ∃ t ∈ h.ticks, 0 < t.clients ∧ now - t.now < cfg.graceNs := by
    rw [tracks.lastClient, tracks.within_iff]
    simp only [decide_eq_true_eq]
  have escalated : (s.escalated && (s.anomaly ≠ .normal || now ≥ s.lastAnomalyNs.getD 0 &&
      now - s.lastAnomalyNs.getD 0 < cfg.graceNs)) = true ↔ h.Escalated cfg := by
    rw [LevelHistory.Escalated, ← tracks.escalated]
    simp only [Bool.and_eq_true, Bool.or_eq_true, decide_eq_true_eq]
    exact ⟨fun both => both.1, fun holds => ⟨holds, lasting holds⟩⟩
  have asked := tracks.requested_iff (show isKnown cfg Level.L3 = true from rfl)
  unfold l3Active
  rw [Bool.or_eq_true, Bool.or_eq_true, Bool.or_eq_true, Bool.or_eq_true, escalated, recent, asked]
  simp only [decide_eq_true_eq, LevelHistory.L3Active, tracks.clients, or_assoc, gt_iff_lt]

theorem isActive_iff (tracks : Tracks cfg now s h) (lasting : Lasting cfg s now) {level : Level}
    (member : level ∈ levels cfg) : isActive cfg s now level = true ↔ h.Active cfg now level := by
  unfold isActive LevelHistory.Active
  by_cases l1 : level = Level.L1
  · simp [l1]
  rw [if_neg l1, if_neg l1]
  by_cases l2 : level = Level.L2
  · rw [if_pos l2, if_pos l2]
    exact tracks.l2Active_iff
  rw [if_neg l2, if_neg l2]
  by_cases l3 : level = Level.L3
  · rw [if_pos l3, if_pos l3]
    exact tracks.l3Active_iff lasting
  rw [if_neg l3, if_neg l3]
  have custom : level ∈ cfg.customLevels.map CustomLevel.id := by
    simpa [levels, l1, l2, l3] using member
  obtain ⟨c, known, rfl⟩ := List.mem_map.mp custom
  exact tracks.requested_iff (isKnown_custom known)

theorem best_eq (tracks : Tracks cfg now s h) (lasting : Lasting cfg s now) :
    h.best cfg now = some (select cfg s now) := by
  rw [← select_eq, LevelHistory.best]
  congr 1
  apply List.filter_congr
  intro level member
  rw [Bool.eq_iff_iff, tracks.isActive_iff lasting member]
  exact @decide_eq_true_iff _ (Classical.propDecidable _)

end Tracks

/-- At every tick of every run on a clock that does not go back, the scheduler returns the level that the
history calls for, and has the history's anomaly state and escalation. -/
theorem tick_follows_history (cfg : SchedulerConfig) (before : List Event) (x : Sample)
    (inOrder : InOrder 0 (before ++ [.tick x])) :
    let s := run cfg fresh (before ++ [.tick x])
    let h := LevelHistory.of cfg (before ++ [.tick x])
    h.best cfg x.ts = some s.level ∧ s.anomaly = h.state ∧ (s.escalated = true ↔ h.Escalated cfg) := by
  intro s h
  have start : Tracks cfg 0 fresh LevelHistory.empty := Tracks.start
  obtain ⟨clock, before', order, -⟩ := start.run inOrder
  have tracks := before'.tick order
  have lasting := lasting_tick cfg (run cfg fresh before) x
  have last : s = tick cfg (run cfg fresh before) x := List.foldl_append
  have recorded : h = (before.foldl (LevelHistory.record cfg) LevelHistory.empty).record cfg (.tick x) :=
    List.foldl_append
  rw [last, recorded]
  exact ⟨tracks.best_eq lasting, tracks.anomaly, tracks.escalated⟩

theorem tick_follows_history_grace :
    let before := [Event.setClientCount 1, .tick (mkSample 0 100), .setClientCount 0, .request Level.L2 500 120]
    (LevelHistory.of {} (before ++ [.tick (mkSample 0 150)])).best {} 150 = some Level.L3 := by
  intro before
  have inOrder : InOrder 0 (before ++ [.tick (mkSample 0 150)]) :=
    ⟨by decide, Or.inr ⟨by decide, by decide, trivial⟩⟩
  have level : (run {} fresh (before ++ [.tick (mkSample 0 150)])).level = Level.L3 := by decide
  rw [← level]
  exact (tick_follows_history {} before (mkSample 0 150) inOrder).1

end Budyk.Proof
