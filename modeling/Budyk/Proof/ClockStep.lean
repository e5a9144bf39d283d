import Budyk.Scheduler.Scheduler

/-! Two runs of the scheduler on clocks that are a fixed time apart. -/

namespace Budyk.Proof
open Lib Scheduler

/-- Every timer of `r`, its requests apart, is the one of `s` on a clock `d` ahead. -/
structure Ahead (d : Nat) (s r : Scheduler) : Prop where
  anomaly : r.anomaly = s.anomaly
  clientCount : r.clientCount = s.clientCount
  escalated : r.escalated = s.escalated
  lastAnomaly : r.lastAnomalyNs = s.lastAnomalyNs.map (· + d)
  lastClient : r.lastClientActiveNs = s.lastClientActiveNs.map (· + d)
  runStart : r.anomalyRunStartNs = s.anomalyRunStartNs.map (· + d)
  lastTick : r.lastTickNs = s.lastTickNs + d ∨ s.lastTickNs = 0 ∧ r.lastTickNs = 0

def SameDeadlines (d : Nat) (s r : Scheduler) : Prop :=
  ∀ id, (r.requests id).map Request.untilNs = (s.requests id).map fun p => p.untilNs + d

def Founded (s : Scheduler) : Prop := s.escalated = true → s.lastAnomalyNs.isSome

/-- No timer but the requests' is moved back to before 0. -/
def Unclamped (s : Scheduler) (now : Nat) : Prop :=
  ∀ t, t ∈ s.lastAnomalyNs ∨ t ∈ s.lastClientActiveNs ∨ t ∈ s.anomalyRunStartNs → s.lastTickNs - now ≤ t

theorem move_eq (back t : Nat) : move back t = t - back := by
  unfold move
  split <;> omega

theorem map_move_ahead {d back : Nat} {t : Option Nat} (fits : ∀ x ∈ t, back ≤ x) :
    (t.map (· + d)).map (move back) = (t.map (move back)).map (· + d) := by
  cases t with
  | none => rfl
  | some x =>
      have low := fits x rfl
      simp only [Option.map_some, move_eq, Option.some.injEq]
      omega

namespace Ahead
variable (cfg : SchedulerConfig) {d : Nat} {s r : Scheduler}

theorem stepsBack_iff (ahead : Ahead d s r) (now : Nat) :
    r.lastTickNs ≠ 0 ∧ now + d < r.lastTickNs ↔ s.lastTickNs ≠ 0 ∧ now < s.lastTickNs := by
  rcases ahead.lastTick with eq | ⟨none, none'⟩ <;> omega

theorem back_eq (ahead : Ahead d s r) {now : Nat} (steps : s.lastTickNs ≠ 0 ∧ now < s.lastTickNs) :
    r.lastTickNs - (now + d) = s.lastTickNs - now := by
  rcases ahead.lastTick with eq | ⟨none, -⟩ <;> omega

theorem stepBack (ahead : Ahead d s r) {now : Nat} (fits : Unclamped s now) :
    Ahead d (s.stepBack now) (r.stepBack (now + d)) := by
  unfold Scheduler.stepBack
  by_cases steps : s.lastTickNs ≠ 0 ∧ now < s.lastTickNs
  · rw [if_pos steps, if_pos ((ahead.stepsBack_iff now).mpr steps), ahead.back_eq steps]
    refine ⟨ahead.anomaly, ahead.clientCount, ahead.escalated, ?_, ?_, ?_, ahead.lastTick⟩
    · rw [ahead.lastAnomaly]
      exact map_move_ahead fun t set => fits t (Or.inl set)
    · rw [ahead.lastClient]
      exact map_move_ahead fun t set => fits t (Or.inr (Or.inl set))
    · rw [ahead.runStart]
      exact map_move_ahead fun t set => fits t (Or.inr (Or.inr set))
  · rw [if_neg steps, if_neg ((ahead.stepsBack_iff now).not.mpr steps)]
    exact ahead

theorem elapsed_add (now start : Nat) : elapsed (now + d) (start + d) = elapsed now start := by
  unfold elapsed
  congr 1
  omega

theorem trackAnomaly (ahead : Ahead d s r) (now : Nat) :
    Ahead d (Scheduler.trackAnomaly cfg s now) (Scheduler.trackAnomaly cfg r (now + d)) := by
  have start : (s.anomalyRunStartNs.map (· + d)).getD (now + d) = s.anomalyRunStartNs.getD now + d := by
    cases s.anomalyRunStartNs <;> rfl
  unfold Scheduler.trackAnomaly
  rw [ahead.anomaly, ahead.escalated, ahead.runStart]
  split
  · exact ahead
  split
  · simp only [start, elapsed_add]
    exact { ahead with anomaly := rfl, lastAnomaly := rfl, runStart := rfl, escalated := rfl }
  split
  · exact { ahead with anomaly := rfl, escalated := rfl, runStart := rfl }
  · exact ahead

theorem endEscalation (ahead : Ahead d s r) (founded : Founded s) (now : Nat) :
    Ahead d (Scheduler.endEscalation cfg s now) (Scheduler.endEscalation cfg r (now + d)) := by
  unfold Scheduler.endEscalation
  rw [ahead.anomaly, ahead.escalated, ahead.lastAnomaly]
  cases last : s.lastAnomalyNs with
  | none =>
      have calm : ¬s.escalated = true := fun escalated => by
        have some := founded escalated
        rw [last] at some
        cases some
      rw [if_neg fun h => calm h.1, if_neg fun h => calm h.1]
      exact ahead
  | some t =>
      simp only [Option.map_some, Option.getD_some, Nat.add_lt_add_iff_right, Nat.add_sub_add_right]
      split
      · exact { ahead with anomaly := rfl, escalated := rfl, lastAnomaly := rfl, runStart := rfl }
      · exact ahead

theorem noteClients (ahead : Ahead d s r) (now : Nat) : Ahead d (s.noteClients now) (r.noteClients (now + d)) := by
  unfold Scheduler.noteClients
  rw [ahead.clientCount]
  split
  · exact { ahead with clientCount := rfl, lastClient := rfl }
  · exact ahead

theorem within_add (window now : Nat) (last : Option Nat) :
    within window (now + d) (last.map (· + d)) = within window now last := by
  cases last with
  | none => rfl
  | some t => simp [within, Nat.add_sub_add_right]

theorem requested (same : SameDeadlines d s r) (now : Nat) (level : Level) :
    r.requested (now + d) level = s.requested now level := by
  have same := same level
  unfold Scheduler.requested
  cases pending : s.requests level <;> cases pending' : r.requests level <;> simp_all

theorem select (ahead : Ahead d s r) (same : SameDeadlines d s r) (founded : Founded s) (now : Nat) :
    Scheduler.select cfg r (now + d) = Scheduler.select cfg s now := by
  have asked := requested same now
  have l2 : l2Active cfg r (now + d) = l2Active cfg s now := by
    simp only [l2Active, ahead.anomaly, ahead.lastAnomaly, within_add, asked]
  have l3 : l3Active cfg r (now + d) = l3Active cfg s now := by
    simp only [l3Active, ahead.anomaly, ahead.clientCount, ahead.escalated, ahead.lastAnomaly,
      ahead.lastClient, within_add, asked]
    cases last : s.lastAnomalyNs with
    | some t => simp [Nat.add_sub_add_right]
    | none =>
        have calm : s.escalated = false := by
          by_contra escalated
          have some := founded (by simpa using escalated)
          rw [last] at some
          cases some
        simp [calm]
  simp only [Scheduler.select, l2, l3, asked]

end Ahead

/-! ## One step on either clock -/

section Fields
variable (cfg : SchedulerConfig) (s : Scheduler) (now : Nat)

theorem trackAnomaly_requests : (trackAnomaly cfg s now).requests = s.requests := by
  unfold trackAnomaly
  split_ifs <;> rfl

theorem endEscalation_requests : (endEscalation cfg s now).requests = s.requests := by
  simp only [endEscalation]
  split_ifs <;> rfl

theorem noteClients_requests : (s.noteClients now).requests = s.requests := by
  unfold noteClients
  split_ifs <;> rfl

theorem settle_requests (current : Sample) : (settle cfg s now current).requests = s.requests := by
  simp only [settle, noteClients_requests, endEscalation_requests, trackAnomaly_requests]

theorem tick_requests (current : Sample) : (tick cfg s current).requests = (s.stepBack current.ts).requests :=
  settle_requests cfg (s.stepBack current.ts) current.ts current

theorem founded_stepBack (founded : Founded s) : Founded (s.stepBack now) := by
  unfold stepBack
  split
  · intro escalated
    have some := founded escalated
    simpa using some
  · exact founded

theorem founded_trackAnomaly (founded : Founded s) : Founded (trackAnomaly cfg s now) := by
  unfold trackAnomaly
  split_ifs
  · exact founded
  · exact fun _ => rfl
  · exact founded
  · exact founded

theorem founded_endEscalation (founded : Founded s) : Founded (endEscalation cfg s now) := by
  simp only [endEscalation]
  split_ifs
  · intro escalated
    cases escalated
  · exact founded

theorem founded_noteClients (founded : Founded s) : Founded (s.noteClients now) := by
  unfold noteClients
  split_ifs <;> exact founded

end Fields

theorem founded_step (cfg : SchedulerConfig) (s : Scheduler) (e : Event) (founded : Founded s) :
    Founded (step cfg s e) := by
  cases e with
  | setClientCount n => exact founded
  | request level untilNs madeAtNs =>
      rw [step, request]
      split_ifs <;> exact founded
  | clockSteppedForward byNs =>
      intro escalated
      have some := founded escalated
      simpa [step, clockSteppedForward] using some
  | tick current =>
      apply founded_noteClients
      apply founded_endEscalation
      apply founded_trackAnomaly
      exact founded_stepBack s current.ts founded

theorem founded_run (cfg : SchedulerConfig) (events : List Event) : Founded (run cfg fresh events) := by
  have start : Founded fresh := fun escalated => by cases escalated
  exact List.foldlRecOn events (step cfg) start fun s founded e _ => founded_step cfg s e founded

def laterSample (d : Nat) (x : Sample) : Sample :=
  { x with timestampNanos := x.timestampNanos + UInt64.ofNat d }

theorem laterSample_ts {d : Nat} {x : Sample} (fits : x.ts + d < 2 ^ 64) : (laterSample d x).ts = x.ts + d := by
  have size : d < 2 ^ 64 := by omega
  change (x.timestampNanos + UInt64.ofNat d).toNat = x.timestampNanos.toNat + d
  rw [UInt64.toNat_add, UInt64.toNat_ofNat_of_lt' size]
  exact Nat.mod_eq_of_lt fits

theorem Ahead.settle (cfg : SchedulerConfig) {d : Nat} {s r : Scheduler} (ahead : Ahead d s r)
    (founded : Founded s) (same : SameDeadlines d s r) (now : Nat) (x : Sample) :
    Ahead d (settle cfg s now x) (settle cfg r (now + d) (laterSample d x)) ∧
      (settle cfg r (now + d) (laterSample d x)).outcome = (settle cfg s now x).outcome := by
  have seen : checkAnomaly cfg r.anomaly (laterSample d x) = checkAnomaly cfg s.anomaly x := by
    rw [ahead.anomaly]
    rfl
  simp only [Scheduler.settle, seen]
  have checked : Ahead d { s with lastTickNs := now, anomaly := checkAnomaly cfg s.anomaly x }
      { r with lastTickNs := now + d, anomaly := checkAnomaly cfg s.anomaly x } :=
    { ahead with anomaly := rfl, lastTick := Or.inl rfl }
  have tracked := checked.trackAnomaly cfg now
  have founded := founded_trackAnomaly cfg { s with lastTickNs := now, anomaly := checkAnomaly cfg s.anomaly x }
    now founded
  have ended := (tracked.endEscalation cfg founded now).noteClients now
  have founded := founded_noteClients _ now (founded_endEscalation cfg _ now founded)
  have level := ended.select cfg (by
    intro id
    simp only [noteClients_requests, endEscalation_requests, trackAnomaly_requests]
    exact same id) founded now
  refine ⟨{ ended with }, ?_⟩
  simp only [outcome, level, ended.anomaly, ended.escalated]

theorem Ahead.tick (cfg : SchedulerConfig) {d : Nat} {s r : Scheduler} (ahead : Ahead d s r)
    (founded : Founded s) {x : Sample} (room : x.ts + d < 2 ^ 64) (fits : Unclamped s x.ts)
    (same : SameDeadlines d (s.stepBack x.ts) (r.stepBack (x.ts + d))) :
    Ahead d (tick cfg s x) (tick cfg r (laterSample d x)) ∧
      (tick cfg r (laterSample d x)).outcome = (tick cfg s x).outcome := by
  unfold Scheduler.tick
  rw [laterSample_ts room]
  exact (ahead.stepBack fits).settle cfg (founded_stepBack s x.ts founded) same x.ts x

theorem Ahead.clockSteppedForward {d : Nat} {s r : Scheduler} (ahead : Ahead d s r)
    (ticked : s.lastTickNs ≠ 0) (byNs : Nat) :
    Ahead d (s.clockSteppedForward byNs) (r.clockSteppedForward byNs) := by
  have comm (t : Option Nat) : (t.map (· + d)).map (· + byNs) = (t.map (· + byNs)).map (· + d) := by
    cases t with
    | none => rfl
    | some x => exact congrArg some (Nat.add_right_comm x d byNs)
  refine ⟨ahead.anomaly, ahead.clientCount, ahead.escalated, ?_, ?_, ?_, ?_⟩
  · exact (congrArg (Option.map (· + byNs)) ahead.lastAnomaly).trans (comm _)
  · exact (congrArg (Option.map (· + byNs)) ahead.lastClient).trans (comm _)
  · exact (congrArg (Option.map (· + byNs)) ahead.runStart).trans (comm _)
  · simp only [Scheduler.clockSteppedForward]
    have tick := ahead.lastTick
    split_ifs <;> omega

/-! ## A step forward that is told -/

def laterRequest (d : Nat) (p : Request) : Request :=
  ⟨p.untilNs + d, if p.madeNs ≠ 0 then p.madeNs + d else p.madeNs⟩

def laterEvent (d : Nat) : Event → Event
  | .setClientCount n => .setClientCount n
  | .request level untilNs madeAtNs =>
      .request level (untilNs + d) (if madeAtNs ≠ 0 then madeAtNs + d else madeAtNs)
  | .clockSteppedForward byNs => .clockSteppedForward byNs
  | .tick current => .tick (laterSample d current)

/-- The event fits either clock: no 64-bit overflow, and no instant moved back to before 0. -/
def Fits (d : Nat) (s : Scheduler) : Event → Prop
  | .tick current => current.ts + d < 2 ^ 64 ∧ Unclamped s current.ts ∧
      ∀ id p, s.requests id = some p → p.madeNs = 0 ∨ current.ts < p.madeNs →
        s.lastTickNs - current.ts ≤ p.untilNs
  -- A tick at 0 is one the source takes for none.
  | .clockSteppedForward _ => s.lastTickNs ≠ 0
  | _ => True

/-- The two states are one, told on clocks `d` apart. -/
structure SameRun (d : Nat) (s r : Scheduler) : Prop extends Ahead d s r where
  requests : ∀ id, r.requests id = (s.requests id).map (laterRequest d)
  founded : Founded s

namespace SameRun
variable (cfg : SchedulerConfig) {d : Nat} {s r : Scheduler}

theorem deadlines (same : SameRun d s r) : SameDeadlines d s r := by
  intro id
  rw [same.requests id]
  cases s.requests id <;> rfl

theorem moveRequest_later {back now : Nat} {p : Request}
    (fits : p.madeNs = 0 ∨ now < p.madeNs → back ≤ p.untilNs) :
    moveRequest back (now + d) (laterRequest d p) = laterRequest d (moveRequest back now p) := by
  have made : ((laterRequest d p).madeNs = 0 ∨ now + d < (laterRequest d p).madeNs) ↔
      (p.madeNs = 0 ∨ now < p.madeNs) := by
    simp only [laterRequest]
    split <;> omega
  by_cases moved : p.madeNs = 0 ∨ now < p.madeNs
  · have low := fits moved
    simp only [moveRequest, Bool.or_eq_true, decide_eq_true_eq, gt_iff_lt, if_pos moved, if_pos (made.mpr moved)]
    simp only [laterRequest, move_eq, Request.mk.injEq, and_true]
    omega
  · simp only [moveRequest, Bool.or_eq_true, decide_eq_true_eq, gt_iff_lt, if_neg moved,
      if_neg (made.not.mpr moved)]

theorem stepBack_requests (same : SameRun d s r) {now : Nat}
    (fits : ∀ id p, s.requests id = some p → p.madeNs = 0 ∨ now < p.madeNs → s.lastTickNs - now ≤ p.untilNs)
    (id : Level) :
    (r.stepBack (now + d)).requests id = ((s.stepBack now).requests id).map (laterRequest d) := by
  unfold Scheduler.stepBack
  by_cases steps : s.lastTickNs ≠ 0 ∧ now < s.lastTickNs
  · rw [if_pos steps, if_pos ((same.stepsBack_iff now).mpr steps), same.back_eq steps]
    simp only [same.requests id]
    cases pending : s.requests id with
    | none => rfl
    | some p => exact congrArg some (moveRequest_later (fits id p pending))
  · rw [if_neg steps, if_neg ((same.stepsBack_iff now).not.mpr steps)]
    exact same.requests id

theorem outlasts_later (p : Request) (untilNs madeAtNs : Nat) :
    outlasts (laterRequest d p) (untilNs + d) (if madeAtNs ≠ 0 then madeAtNs + d else madeAtNs) =
      outlasts p untilNs madeAtNs := by
  unfold outlasts laterRequest
  by_cases made : madeAtNs = 0
  · simp [made]
  · by_cases made' : p.madeNs = 0 <;> simp [made, made']

theorem request (same : SameRun d s r) (level : Level) (untilNs madeAtNs : Nat) :
    SameRun d (request cfg s level untilNs madeAtNs)
      (request cfg r level (untilNs + d) (if madeAtNs ≠ 0 then madeAtNs + d else madeAtNs)) := by
  have kept : ((r.requests level).any fun pending => outlasts pending (untilNs + d)
        (if madeAtNs ≠ 0 then madeAtNs + d else madeAtNs)) =
      (s.requests level).any fun pending => outlasts pending untilNs madeAtNs := by
    rw [same.requests level]
    cases s.requests level with
    | none => rfl
    | some p => exact outlasts_later p untilNs madeAtNs
  unfold Scheduler.request
  rw [kept]
  split
  · exact same
  split
  · exact same
  refine { same with requests := fun id => ?_ }
  by_cases this : id = level
  · subst this
    simp [laterRequest]
  · simp only [Function.update_of_ne this]
    exact same.requests id

theorem laterRequest_comm {byNs : Nat} (p : Request) :
    laterRequest byNs (laterRequest d p) = laterRequest d (laterRequest byNs p) := by
  simp only [laterRequest, Request.mk.injEq]
  refine ⟨by omega, ?_⟩
  split_ifs <;> omega

theorem step (same : SameRun d s r) (e : Event) (fits : Fits d s e) :
    report cfg r (laterEvent d e) = report cfg s e ∧
      SameRun d (step cfg s e) (step cfg r (laterEvent d e)) := by
  have founded := founded_step cfg s e same.founded
  cases e with
  | setClientCount n => exact ⟨rfl, { same with clientCount := rfl }⟩
  | request level untilNs madeAtNs => exact ⟨rfl, same.request cfg level untilNs madeAtNs⟩
  | clockSteppedForward byNs =>
      refine ⟨rfl, ⟨same.toAhead.clockSteppedForward fits byNs, fun id => ?_, founded⟩⟩
      simp only [laterEvent, Scheduler.step, Scheduler.clockSteppedForward, same.requests id, Option.map_map]
      congr 1
      funext p
      exact laterRequest_comm p
  | tick current =>
      obtain ⟨room, unclamped, kept⟩ := fits
      have requests := same.stepBack_requests kept
      have deadlines : SameDeadlines d (s.stepBack current.ts) (r.stepBack (current.ts + d)) := by
        intro id
        rw [requests id]
        cases (s.stepBack current.ts).requests id <;> rfl
      obtain ⟨ahead, returned⟩ := same.toAhead.tick cfg same.founded room unclamped deadlines
      refine ⟨congrArg (fun o => [o]) returned, ⟨ahead, fun id => ?_, founded⟩⟩
      rw [laterEvent, Scheduler.step, Scheduler.step, tick_requests, tick_requests, laterSample_ts room]
      exact requests id

end SameRun

theorem sameRun_clockSteppedForward (s : Scheduler) (founded : Founded s) (d : Nat) :
    SameRun d s (s.clockSteppedForward d) := by
  refine ⟨⟨rfl, rfl, rfl, rfl, rfl, rfl, ?_⟩, fun _ => rfl, founded⟩
  simp only [clockSteppedForward]
  split_ifs <;> omega

/-- Telling the scheduler of a step forward is a change of clock: what follows on the new clock returns
what it would have returned on the old one. -/
theorem clockSteppedForward_changes_clock (cfg : SchedulerConfig) (before continuation : List Event) (d : Nat)
    (fits : Along (step cfg) (Fits d) (run cfg fresh before) continuation) :
    outcomes cfg ((run cfg fresh before).clockSteppedForward d) (continuation.map (laterEvent d)) =
      outcomes cfg (run cfg fresh before) continuation := by
  have start := sameRun_clockSteppedForward _ (founded_run cfg before) d
  exact reports_eq (laterEvent d) start fits (along_true _ _) fun s r e same fits _ => same.step cfg e fits

theorem fits_onward {d : Nat} {s : Scheduler} {x : Sample} (room : x.ts + d < 2 ^ 64)
    (onward : s.lastTickNs - x.ts = 0) : Fits d s (.tick x) :=
  ⟨room, fun _ _ => onward ▸ Nat.zero_le _, fun _ _ _ _ => onward ▸ Nat.zero_le _⟩

theorem clockSteppedForward_changes_clock_request :
    let before := [Event.tick (mkSample 0 100)]
    let continuation := [Event.request Level.L3 500 120, .tick (mkSample 0 150), .tick (mkSample 0 501)]
    outcomes {} ((run {} fresh before).clockSteppedForward 3600) (continuation.map (laterEvent 3600)) =
      [⟨Level.L3, .normal, false⟩, ⟨Level.L1, .normal, false⟩] := by
  intro before continuation
  refine (clockSteppedForward_changes_clock {} before continuation 3600 ?_).trans (by decide)
  exact ⟨trivial, fits_onward (by decide) (by decide), fits_onward (by decide) (by decide), trivial⟩

end Budyk.Proof
