import Mathlib.Order.Nat
import Budyk.Proof.ClockStep

/-! What a step back of the clock, and a request after it, leave of the requests on record. The scheduler
tells the clock a request was made on by the time it was made at: each theorem says when that is right. -/

namespace Budyk.Proof
open Lib Scheduler

def deadline (s : Scheduler) (id : Level) : Option Nat := (s.requests id).map Request.untilNs

def fileOne (madeAtNs : Nat) (pending : Option Request) (untilNs : Nat) : Option Request :=
  if pending.any fun p => outlasts p untilNs madeAtNs then pending else some ⟨untilNs, madeAtNs⟩

def hitsFor (cfg : SchedulerConfig) (hits : List (Level × Nat)) (id : Level) : List Nat :=
  if isKnown cfg id then (hits.filter fun hit => hit.1 = id).map Prod.snd else []

theorem request_eq (cfg : SchedulerConfig) (s : Scheduler) (level : Level) (untilNs madeAtNs : Nat) :
    request cfg s level untilNs madeAtNs = { s with
      requests := fun id =>
        if isKnown cfg level ∧ id = level then fileOne madeAtNs (s.requests id) untilNs else s.requests id } := by
  have filed : (fun id => if isKnown cfg level ∧ id = level then fileOne madeAtNs (s.requests id) untilNs
      else s.requests id) = (request cfg s level untilNs madeAtNs).requests := by
    funext id
    unfold request fileOne
    cases known : isKnown cfg level with
    | false => simp
    | true =>
        by_cases same : id = level
        · subst same
          by_cases kept : (s.requests id).any fun p => outlasts p untilNs madeAtNs <;> simp [kept]
        · by_cases kept : (s.requests level).any fun p => outlasts p untilNs madeAtNs <;> simp [kept, same]
  rw [filed]
  unfold request
  split_ifs <;> rfl

def filed (cfg : SchedulerConfig) (now : Nat) (hits : List (Level × Nat)) (s : Scheduler) : Scheduler :=
  { s with requests := fun id => (hitsFor cfg hits id).foldl (fileOne now) (s.requests id) }

theorem filed_eq (cfg : SchedulerConfig) (now : Nat) (hits : List (Level × Nat)) (s : Scheduler) :
    run cfg s (hits.map fun hit => .request hit.1 hit.2 now) = filed cfg now hits s := by
  induction hits generalizing s with
  | nil => simp [run, filed, hitsFor]
  | cons hit hits ih =>
      change run cfg (request cfg s hit.1 hit.2 now) (hits.map _) = _
      rw [ih, request_eq, filed, filed]
      congr 1
      funext id
      by_cases same : hit.1 = id
      · subst same
        cases known : isKnown cfg hit.1 <;> simp [hitsFor, known]
      · simp [hitsFor, same, Ne.symm same]

theorem foldl_max_le (us : List Nat) (u : Nat) : u ≤ us.foldl max u := by
  induction us generalizing u with
  | nil => exact Nat.le_refl _
  | cons v us ih => exact Nat.le_trans (Nat.le_max_left u v) (ih _)

theorem foldl_fileOne (now : Nat) (us : List Nat) {p : Request} (current : p.madeNs ≤ now ∨ now = 0) :
    us.foldl (fileOne now) (some p) =
      some (if us.foldl max p.untilNs = p.untilNs then p else ⟨us.foldl max p.untilNs, now⟩) := by
  induction us generalizing p with
  | nil => simp
  | cons u us ih =>
      have fresh : ¬(now ≠ 0 ∧ now < p.madeNs) := by omega
      by_cases kept : u ≤ p.untilNs
      · have step : fileOne now (some p) u = some p := by simp [fileOne, outlasts, kept]; omega
        rw [List.foldl_cons, List.foldl_cons, step, Nat.max_eq_left kept, ih current]
      · have step : fileOne now (some p) u = some ⟨u, now⟩ := by simp [fileOne, outlasts, kept]
        have later := foldl_max_le us u
        rw [List.foldl_cons, List.foldl_cons, step, Nat.max_eq_right (by omega), ih (Or.inl (Nat.le_refl _)),
          if_neg (by omega : ¬us.foldl max u = p.untilNs)]
        split
        next same => rw [same]
        next => rfl

theorem foldl_fileOne_stale {now : Nat} (clock : now ≠ 0) {p : Request} (stale : now < p.madeNs) (u : Nat)
    (us : List Nat) : (u :: us).foldl (fileOne now) (some p) = some ⟨us.foldl max u, now⟩ := by
  have step : fileOne now (some p) u = some ⟨u, now⟩ := by simp [fileOne, outlasts, clock, stale]
  rw [List.foldl_cons, step, foldl_fileOne now us (Or.inl (Nat.le_refl _))]
  split
  next same => rw [same]
  next => rfl

theorem merge_max (us : List Nat) (a : Nat) :
    Option.merge max (some a) us.max? = some (us.foldl max a) := by
  cases us with
  | nil => rfl
  | cons u us =>
      rw [List.max?_cons', List.foldl_cons, List.foldl_assoc]
      rfl

/-! ## One level through a sample's hits and its tick -/

/-- The request on record, and the hit of the sample on which the clock has stepped back to `now`, both
keep their deadlines. -/
def Kept (now back : Nat) (p : Request) : Option Nat → Prop
  -- The one on record is moved: made after `now`, or on the last tick's clock.
  | none => p.madeNs = 0 ∨ now < p.madeNs
  | some hit =>
      -- Made after `now`, it gives way to the hit.
      (now < p.madeNs → p.untilNs - back ≤ hit) ∧
      -- It is compared with the hit before it is moved.
      (p.madeNs = 0 → hit ≤ p.untilNs → hit ≤ p.untilNs - back) ∧
      -- It is not moved at all.
      (0 < p.madeNs → p.madeNs ≤ now → p.untilNs ≤ hit)

def KeptOnward (now : Nat) (p : Request) (hit : Option Nat) : Prop :=
  ∀ v ∈ hit, now ≠ 0 → now < p.madeNs → p.untilNs ≤ v

theorem onward_deadline {now : Nat} {p : Request} {us : List Nat} (kept : KeptOnward now p us.max?) :
    (us.foldl (fileOne now) (some p)).map Request.untilNs = Option.merge max (some p.untilNs) us.max? := by
  rw [merge_max]
  by_cases stale : now ≠ 0 ∧ now < p.madeNs
  · cases us with
    | nil => rfl
    | cons u us =>
        have low := kept _ (List.max?_cons' ..) stale.1 stale.2
        rw [foldl_fileOne_stale stale.1 stale.2, List.foldl_cons, List.foldl_assoc]
        exact congrArg some (Nat.max_eq_right low).symm
  · rw [foldl_fileOne now us (by omega)]
    split
    next same => exact congrArg some same.symm
    next => rfl

theorem untilNs_moveRequest (back now : Nat) (p : Request) :
    (moveRequest back now p).untilNs =
      if p.madeNs = 0 ∨ now < p.madeNs then p.untilNs - back else p.untilNs := by
  simp only [moveRequest, Bool.or_eq_true, decide_eq_true_eq, gt_iff_lt, move_eq]
  split <;> rfl

theorem stepped_deadline {now : Nat} (back : Nat) (p : Request) (us : List Nat) (clock : us ≠ [] → now ≠ 0) :
    ((us.foldl (fileOne now) (some p)).map (moveRequest back now)).map Request.untilNs = some (
      match us.max? with
      | none => if p.madeNs = 0 ∨ now < p.madeNs then p.untilNs - back else p.untilNs
      | some hit => if now < p.madeNs ∨ p.untilNs < hit then hit
          else if p.madeNs = 0 then p.untilNs - back else p.untilNs) := by
  cases us with
  | nil => exact congrArg some (untilNs_moveRequest back now p)
  | cons u us =>
      rw [List.max?_cons']
      have clock := clock (List.cons_ne_nil u us)
      have unmoved (v : Nat) : (moveRequest back now ⟨v, now⟩).untilNs = v := by
        rw [untilNs_moveRequest, if_neg (by simp [clock])]
      by_cases stale : now < p.madeNs
      · rw [foldl_fileOne_stale clock stale]
        simp only [Option.map_some, unmoved, stale, true_or, if_true]
      · have top : (u :: us).foldl max p.untilNs = max p.untilNs (us.foldl max u) := by
          rw [List.foldl_cons, List.foldl_assoc]
        rw [foldl_fileOne now _ (Or.inl (Nat.not_lt.mp stale)), top]
        by_cases longer : p.untilNs < us.foldl max u
        · rw [if_neg (by omega)]
          simp only [Option.map_some, unmoved, longer, or_true, if_true, Option.some.injEq]
          omega
        · rw [if_pos (by omega)]
          simp only [Option.map_some, untilNs_moveRequest, stale, longer, or_false, if_false]

theorem stepped_deadline_of_kept {now back : Nat} {p : Request} {us : List Nat} (clock : us ≠ [] → now ≠ 0)
    (kept : Kept now back p us.max?) :
    ((us.foldl (fileOne now) (some p)).map (moveRequest back now)).map Request.untilNs =
      Option.merge max (some (p.untilNs - back)) us.max? := by
  rw [stepped_deadline back p us clock]
  cases top : us.max? with
  | none =>
      rw [top] at kept
      exact congrArg some (if_pos kept)
  | some hit =>
      rw [top] at kept
      obtain ⟨stale, compared, unmoved⟩ := kept
      refine congrArg some (?_ : _ = max (p.untilNs - back) hit)
      simp only
      split_ifs <;> omega

theorem kept_of_stepped_deadline {now back : Nat} {p : Request} {us : List Nat} (clock : us ≠ [] → now ≠ 0)
    (steps : 0 < back) (fits : back ≤ p.untilNs)
    (same : ((us.foldl (fileOne now) (some p)).map (moveRequest back now)).map Request.untilNs =
      Option.merge max (some (p.untilNs - back)) us.max?) : Kept now back p us.max? := by
  rw [stepped_deadline back p us clock] at same
  cases top : us.max? with
  | none =>
      rw [top] at same
      by_contra unmoved
      simp only [Kept] at unmoved
      simp only [if_neg unmoved, Option.merge, Option.some.injEq] at same
      omega
  | some hit =>
      rw [top] at same
      replace same : _ = max (p.untilNs - back) hit := Option.some.inj same
      simp only at same
      refine ⟨fun stale => ?_, fun zero low => ?_, fun made old => ?_⟩ <;> split_ifs at same <;> omega

/-! ## Turns -/

def Undisturbed (cfg : SchedulerConfig) (s : Scheduler) : Turn → Prop
  | .request level untilNs madeAtNs =>
      ∀ p, s.requests level = some p → madeAtNs ≠ 0 → madeAtNs < p.madeNs → p.untilNs ≤ untilNs
  | .sample hits current => ∀ id p, s.requests id = some p →
      if current.ts < s.lastTickNs then
        Kept current.ts (s.lastTickNs - current.ts) p (hitsFor cfg hits id).max?
      else KeptOnward current.ts p (hitsFor cfg hits id).max?
  | _ => True

/-- The deadlines of a scheduler that a step back leaves what is left of every request, and that never
shortens one. -/
def dueAfter (cfg : SchedulerConfig) (s : Scheduler) (id : Level) : Turn → Option Nat
  | .setClientCount _ => deadline s id
  | .request level untilNs _ =>
      if isKnown cfg level ∧ id = level then Option.merge max (deadline s id) (some untilNs) else deadline s id
  | .clockSteppedForward byNs => (deadline s id).map (· + byNs)
  | .sample hits current =>
      Option.merge max ((deadline s id).map (· - (s.lastTickNs - current.ts))) (hitsFor cfg hits id).max?

/-- A level is hit on a clock that has a time: 0 stands for the last tick's. -/
def Timed : Turn → Prop
  | .sample hits current => hits ≠ [] → current.ts ≠ 0
  | _ => True

theorem takeTurn_sample (cfg : SchedulerConfig) (s : Scheduler) (hits : List (Level × Nat)) (x : Sample) :
    takeTurn cfg s (.sample hits x) = tick cfg (filed cfg x.ts hits s) x := by
  rw [takeTurn, Turn.events, run, List.foldl_append, ← filed_eq]
  rfl

theorem stepBack_requests (s : Scheduler) (now : Nat) (id : Level) :
    (s.stepBack now).requests id =
      if now < s.lastTickNs then (s.requests id).map (moveRequest (s.lastTickNs - now) now)
      else s.requests id := by
  unfold stepBack
  by_cases steps : now < s.lastTickNs
  · rw [if_pos ⟨by omega, steps⟩, if_pos steps]
  · rw [if_neg fun both => steps both.2, if_neg steps]

theorem hitsFor_ne_nil {cfg : SchedulerConfig} {hits : List (Level × Nat)} {id : Level}
    (some : hitsFor cfg hits id ≠ []) : hits ≠ [] := by
  rintro rfl
  apply some
  simp [hitsFor]

theorem foldl_fileOne_none {now : Nat} (us : List Nat) :
    us.foldl (fileOne now) none = us.max?.map fun v => ⟨v, now⟩ := by
  cases us with
  | nil => rfl
  | cons u us =>
      rw [List.max?_cons', List.foldl_cons]
      change us.foldl (fileOne now) (some ⟨u, now⟩) = _
      rw [foldl_fileOne now us (Or.inl (Nat.le_refl _))]
      split
      next same => exact congrArg (fun v => some (Request.mk v now)) same.symm
      next => rfl

theorem deadline_sample (cfg : SchedulerConfig) (s : Scheduler) (hits : List (Level × Nat)) (x : Sample)
    (id : Level) :
    deadline (takeTurn cfg s (.sample hits x)) id =
      let filed := (hitsFor cfg hits id).foldl (fileOne x.ts) (s.requests id)
      (if x.ts < s.lastTickNs then filed.map (moveRequest (s.lastTickNs - x.ts) x.ts) else filed).map
        Request.untilNs := by
  rw [takeTurn_sample, deadline, tick_requests, stepBack_requests]
  rfl

theorem deadline_sample_none {cfg : SchedulerConfig} {s : Scheduler} {hits : List (Level × Nat)} {x : Sample}
    {id : Level} (timed : Timed (.sample hits x)) (none : s.requests id = none) :
    deadline (takeTurn cfg s (.sample hits x)) id = (hitsFor cfg hits id).max? := by
  rw [deadline_sample, none]
  simp only [foldl_fileOne_none]
  cases top : (hitsFor cfg hits id).max? with
  | none => split <;> rfl
  | some v =>
      have hit : hitsFor cfg hits id ≠ [] := by
        intro empty
        rw [empty] at top
        cases top
      have clock : x.ts ≠ 0 := timed (hitsFor_ne_nil hit)
      split
      · simp only [Option.map_some, untilNs_moveRequest]
        rw [if_neg (by simp [clock])]
      · rfl

theorem deadline_takeTurn {cfg : SchedulerConfig} {s : Scheduler} {turn : Turn} (timed : Timed turn)
    (undisturbed : Undisturbed cfg s turn) (id : Level) :
    deadline (takeTurn cfg s turn) id = dueAfter cfg s id turn := by
  cases turn with
  | setClientCount n => rfl
  | clockSteppedForward byNs =>
      simp only [takeTurn, Turn.events, run, List.foldl, step, clockSteppedForward, deadline, dueAfter]
      cases s.requests id <;> rfl
  | request level untilNs madeAtNs =>
      change deadline (request cfg s level untilNs madeAtNs) id = _
      rw [request_eq, deadline, dueAfter]
      simp only
      split
      next this =>
        obtain ⟨-, rfl⟩ := this
        rw [deadline]
        cases pending : s.requests id with
        | none => rfl
        | some p =>
            have kept : KeptOnward madeAtNs p [untilNs].max? := by
              intro v found
              cases found
              exact undisturbed p pending
            exact onward_deadline kept
      next => rfl
  | sample hits x =>
      cases pending : s.requests id with
      | none =>
          rw [deadline_sample_none timed pending, dueAfter, deadline, pending]
          cases (hitsFor cfg hits id).max? <;> rfl
      | some p =>
          have kept := undisturbed id p pending
          rw [deadline_sample, dueAfter, deadline, pending]
          simp only
          split
          next steps =>
            rw [if_pos steps] at kept
            exact stepped_deadline_of_kept (fun some => timed (hitsFor_ne_nil some)) kept
          next steps =>
            rw [if_neg steps] at kept
            rw [Nat.sub_eq_zero_of_le (Nat.not_lt.mp steps)]
            exact onward_deadline kept

/-! ## Turns on either clock -/

def laterTurn (d : Nat) : Turn → Turn
  | .setClientCount n => .setClientCount n
  | .request level untilNs madeAtNs =>
      .request level (untilNs + d) (if madeAtNs ≠ 0 then madeAtNs + d else madeAtNs)
  | .clockSteppedForward byNs => .clockSteppedForward byNs
  | .sample hits current => .sample (hits.map fun hit => (hit.1, hit.2 + d)) (laterSample d current)

def FitsTurn (d : Nat) (s : Scheduler) : Turn → Prop
  | .sample hits current => Timed (.sample hits current) ∧ current.ts + d < 2 ^ 64 ∧
      Unclamped s current.ts ∧ ∀ id p, s.requests id = some p → s.lastTickNs - current.ts ≤ p.untilNs
  | .clockSteppedForward _ => s.lastTickNs ≠ 0
  | _ => True

theorem foldl_max_add (d : Nat) (us : List Nat) (u : Nat) :
    (us.map (· + d)).foldl max (u + d) = us.foldl max u + d := by
  induction us generalizing u with
  | nil => rfl
  | cons v us ih =>
      rw [List.map_cons, List.foldl_cons, List.foldl_cons, Nat.add_max_add_right, ih]

theorem max?_add (d : Nat) (us : List Nat) : (us.map (· + d)).max? = us.max?.map (· + d) := by
  cases us with
  | nil => rfl
  | cons u us => rw [List.map_cons, List.max?_cons', List.max?_cons', foldl_max_add, Option.map_some]

theorem hitsFor_later (cfg : SchedulerConfig) (d : Nat) (hits : List (Level × Nat)) (id : Level) :
    hitsFor cfg (hits.map fun hit => (hit.1, hit.2 + d)) id = (hitsFor cfg hits id).map (· + d) := by
  unfold hitsFor
  split
  · rw [List.filter_map, List.map_map, List.map_map]
    rfl
  · rfl

theorem merge_add (d : Nat) (a b : Option Nat) :
    Option.merge max (a.map (· + d)) (b.map (· + d)) = (Option.merge max a b).map (· + d) := by
  cases a <;> cases b <;> simp [Option.merge, Nat.add_max_add_right]

theorem Ahead.back_later {d : Nat} {s r : Scheduler} (ahead : Ahead d s r) (now : Nat) :
    r.lastTickNs - (now + d) = s.lastTickNs - now := by
  rcases ahead.lastTick with eq | ⟨none, none'⟩ <;> omega

theorem outcomes_sample (cfg : SchedulerConfig) (s : Scheduler) (hits : List (Level × Nat)) (x : Sample) :
    outcomes cfg s (Turn.sample hits x).events = [(takeTurn cfg s (.sample hits x)).outcome] := by
  induction hits generalizing s with
  | nil => rfl
  | cons hit hits ih => exact ih (request cfg s hit.1 hit.2 x.ts)

theorem founded_takeTurn (cfg : SchedulerConfig) {s : Scheduler} (turn : Turn) (founded : Founded s) :
    Founded (takeTurn cfg s turn) :=
  List.foldlRecOn turn.events (step cfg) founded fun s founded e _ => founded_step cfg s e founded

theorem Ahead.filed {d : Nat} {s r : Scheduler} (ahead : Ahead d s r) (cfg : SchedulerConfig)
    (hits : List (Level × Nat)) (now : Nat) :
    Ahead d (filed cfg now hits s) (filed cfg (now + d) (hits.map fun hit => (hit.1, hit.2 + d)) r) :=
  { ahead with }

theorem deadline_map_congr {s : Scheduler} {id : Level} {f g : Nat → Nat}
    (same : ∀ p, s.requests id = some p → f p.untilNs = g p.untilNs) :
    (deadline s id).map f = (deadline s id).map g := by
  cases pending : s.requests id with
  | none => simp [deadline, pending]
  | some p => simp [deadline, pending, same p pending]

/-- The two states hold the same, told on clocks `d` apart, but for when the requests were made. -/
structure SameTimers (d : Nat) (s r : Scheduler) : Prop extends Ahead d s r where
  deadlines : SameDeadlines d s r
  founded : Founded s

namespace SameTimers
variable {cfg : SchedulerConfig} {d : Nat} {s r : Scheduler}

theorem deadline_eq (same : SameTimers d s r) (id : Level) : deadline r id = (deadline s id).map (· + d) := by
  rw [deadline, deadline, same.deadlines id, Option.map_map]
  rfl

theorem dueAfter (same : SameTimers d s r) {turn : Turn} (fits : FitsTurn d s turn) (id : Level) :
    dueAfter cfg r id (laterTurn d turn) = (dueAfter cfg s id turn).map (· + d) := by
  cases turn with
  | setClientCount n => exact same.deadline_eq id
  | request level untilNs madeAtNs =>
      simp only [laterTurn, Proof.dueAfter, same.deadline_eq]
      split
      · exact merge_add d (deadline s id) (some untilNs)
      · rfl
  | clockSteppedForward byNs =>
      simp only [laterTurn, Proof.dueAfter, same.deadline_eq, Option.map_map]
      congr 1
      funext t
      exact Nat.add_right_comm t d byNs
  | sample hits x =>
      obtain ⟨-, room, -, low⟩ := fits
      simp only [laterTurn, Proof.dueAfter, hitsFor_later, max?_add, laterSample_ts room, same.back_later,
        same.deadline_eq]
      rw [← merge_add, Option.map_map, Option.map_map]
      congr 1
      apply deadline_map_congr
      intro p pending
      have low := low id p pending
      simp only [Function.comp_apply]
      omega

theorem sameDeadlines_of_eq (eq : ∀ id, deadline r id = (deadline s id).map (· + d)) : SameDeadlines d s r := by
  intro id
  have eq := eq id
  rw [deadline, deadline, Option.map_map] at eq
  exact eq

theorem timed_later {turn : Turn} (fits : FitsTurn d s turn) : Timed turn ∧ Timed (laterTurn d turn) := by
  cases turn with
  | sample hits x =>
      obtain ⟨timed, room, -⟩ := fits
      refine ⟨timed, fun some => ?_⟩
      have clock := timed fun empty => some (by rw [empty]; rfl)
      rw [laterSample_ts room]
      omega
  | _ => exact ⟨trivial, trivial⟩

theorem takeTurn (same : SameTimers d s r) {turn : Turn} (fits : FitsTurn d s turn)
    (undisturbed : Undisturbed cfg s turn) (undisturbed' : Undisturbed cfg r (laterTurn d turn)) :
    outcomes cfg r (laterTurn d turn).events = outcomes cfg s turn.events ∧
      SameTimers d (takeTurn cfg s turn) (takeTurn cfg r (laterTurn d turn)) := by
  obtain ⟨timed, timed'⟩ := timed_later fits
  have deadlines : SameDeadlines d (Scheduler.takeTurn cfg s turn) (Scheduler.takeTurn cfg r (laterTurn d turn)) := by
    apply sameDeadlines_of_eq
    intro id
    rw [deadline_takeTurn timed undisturbed, deadline_takeTurn timed' undisturbed', same.dueAfter fits]
  have founded := founded_takeTurn cfg turn same.founded
  cases turn with
  | setClientCount n => exact ⟨rfl, { same with clientCount := rfl }⟩
  | request level untilNs madeAtNs =>
      refine ⟨rfl, ?_, deadlines, founded⟩
      change Ahead d (request cfg s ..) (request cfg r ..)
      rw [request_eq, request_eq]
      exact { same.toAhead with }
  | clockSteppedForward byNs => exact ⟨rfl, same.toAhead.clockSteppedForward fits byNs, deadlines, founded⟩
  | sample hits x =>
      obtain ⟨-, room, unclamped, -⟩ := fits
      rw [laterTurn] at deadlines ⊢
      rw [outcomes_sample, outcomes_sample]
      rw [takeTurn_sample, takeTurn_sample] at deadlines ⊢
      rw [takeTurn_sample] at founded
      have ahead := same.toAhead.filed cfg hits x.ts
      have moved := deadlines
      simp only [SameDeadlines, tick_requests, laterSample_ts room] at moved
      rw [laterSample_ts room] at deadlines ⊢
      obtain ⟨ahead, returned⟩ := ahead.tick cfg same.founded room unclamped moved
      exact ⟨congrArg (fun o => [o]) returned, ahead, deadlines, founded⟩

end SameTimers

/-! ## The step back itself -/

theorem map_elapsed {now tick : Nat} {t : Option Nat} (steps : now < tick) (fits : ∀ x ∈ t, tick - now ≤ x) :
    (t.map (move (tick - now))).map (now - ·) = t.map (tick - ·) := by
  cases t with
  | none => rfl
  | some x =>
      have low := fits x rfl
      simp only [Option.map_some, move_eq, Option.some.injEq]
      omega

theorem map_move_add {back : Nat} {t : Option Nat} (fits : ∀ x ∈ t, back ≤ x) :
    t = (t.map (move back)).map (· + back) := by
  cases t with
  | none => rfl
  | some x =>
      have low := fits x rfl
      simp only [Option.map_some, move_eq, Option.some.injEq]
      omega

theorem stepBack_eq {s : Scheduler} {now : Nat} (steps : now < s.lastTickNs) :
    s.stepBack now = { s with
      requests := fun id => (s.requests id).map (moveRequest (s.lastTickNs - now) now)
      lastClientActiveNs := s.lastClientActiveNs.map (move (s.lastTickNs - now))
      lastAnomalyNs := s.lastAnomalyNs.map (move (s.lastTickNs - now))
      anomalyRunStartNs := s.anomalyRunStartNs.map (move (s.lastTickNs - now)) } :=
  if_pos ⟨by omega, steps⟩

theorem stepBack_of_le {s : Scheduler} {now : Nat} (onward : s.lastTickNs ≤ now) : s.stepBack now = s :=
  if_neg fun steps => Nat.not_lt.mpr onward steps.2

theorem ahead_of_stepBack {s : Scheduler} {now : Nat} (steps : now < s.lastTickNs) (fits : Unclamped s now) :
    Ahead (s.lastTickNs - now) { s.stepBack now with lastTickNs := now } s := by
  rw [stepBack_eq steps]
  refine ⟨rfl, rfl, rfl, ?_, ?_, ?_, Or.inl ?_⟩
  · exact map_move_add fun t set => fits t (Or.inl set)
  · exact map_move_add fun t set => fits t (Or.inr (Or.inl set))
  · exact map_move_add fun t set => fits t (Or.inr (Or.inr set))
  · simp only
    omega

theorem sameTimers_of_step {cfg : SchedulerConfig} {s : Scheduler} (founded : Founded s)
    {hits : List (Level × Nat)} {x : Sample} (steps : x.ts < s.lastTickNs)
    (fits : FitsTurn (s.lastTickNs - x.ts) s (.sample hits x)) (undisturbed : Undisturbed cfg s (.sample hits x))
    (undisturbed' : Undisturbed cfg s (laterTurn (s.lastTickNs - x.ts) (.sample hits x))) :
    let turn := Turn.sample hits x
    let later := laterTurn (s.lastTickNs - x.ts) turn
    outcomes cfg s later.events = outcomes cfg s turn.events ∧
      SameTimers (s.lastTickNs - x.ts) (takeTurn cfg s turn) (takeTurn cfg s later) := by
  intro turn later
  obtain ⟨timed, timed'⟩ := SameTimers.timed_later fits
  obtain ⟨-, room, unclamped, low⟩ := fits
  have same : x.ts + (s.lastTickNs - x.ts) = s.lastTickNs := by omega
  have deadlines : SameDeadlines (s.lastTickNs - x.ts) (takeTurn cfg s turn) (takeTurn cfg s later) := by
    apply SameTimers.sameDeadlines_of_eq
    intro id
    rw [deadline_takeTurn timed undisturbed, deadline_takeTurn timed' undisturbed']
    simp only [laterTurn, dueAfter, hitsFor_later, max?_add, laterSample_ts room, same, Nat.sub_self]
    rw [← merge_add, Option.map_map]
    congr 1
    apply deadline_map_congr
    intro p pending
    have low := low id p pending
    simp only [Function.comp_apply]
    omega
  have stepped : takeTurn cfg s turn = settle cfg ((filed cfg x.ts hits s).stepBack x.ts) x.ts x :=
    takeTurn_sample cfg s hits x
  have steady : takeTurn cfg s later = settle cfg
      (filed cfg s.lastTickNs (hits.map fun hit => (hit.1, hit.2 + (s.lastTickNs - x.ts))) s)
      (x.ts + (s.lastTickNs - x.ts)) (laterSample (s.lastTickNs - x.ts) x) := by
    refine (takeTurn_sample cfg s _ _).trans ?_
    rw [tick, laterSample_ts room, same]
    exact congrArg (settle cfg · _ _) (stepBack_of_le (Nat.le_refl s.lastTickNs))
  have ahead : Ahead (s.lastTickNs - x.ts)
      { (filed cfg x.ts hits s).stepBack x.ts with lastTickNs := x.ts }
      (filed cfg s.lastTickNs (hits.map fun hit => (hit.1, hit.2 + (s.lastTickNs - x.ts))) s) :=
    { ahead_of_stepBack (s := filed cfg x.ts hits s) steps unclamped with }
  have moved := deadlines
  simp only [stepped, steady, SameDeadlines, settle_requests] at moved
  obtain ⟨ahead, returned⟩ := ahead.settle cfg (founded_stepBack _ x.ts founded) moved x.ts x
  refine ⟨?_, ?_, deadlines, founded_takeTurn cfg turn founded⟩
  · refine (outcomes_sample cfg s _ _).trans ((congrArg (fun o => [o]) ?_).trans (outcomes_sample cfg s hits x).symm)
    exact (congrArg outcome steady).trans (returned.trans (congrArg outcome stepped).symm)
  · rw [stepped, steady]
    exact ahead

theorem undisturbed_iff {cfg : SchedulerConfig} {s : Scheduler} {hits : List (Level × Nat)} {x : Sample}
    (steps : x.ts < s.lastTickNs) (fits : FitsTurn (s.lastTickNs - x.ts) s (.sample hits x)) :
    (∀ id, deadline (takeTurn cfg s (.sample hits x)) id =
        Option.merge max ((deadline s id).map (· - (s.lastTickNs - x.ts))) (hitsFor cfg hits id).max?) ↔
      Undisturbed cfg s (.sample hits x) := by
  obtain ⟨timed, -, -, low⟩ := fits
  refine ⟨fun same id p pending => ?_, fun undisturbed id => deadline_takeTurn timed undisturbed id⟩
  have same := same id
  rw [deadline_sample, deadline, pending] at same
  rw [if_pos steps]
  simp only [if_pos steps] at same
  exact kept_of_stepped_deadline (fun some => timed (hitsFor_ne_nil some)) (by omega) (low id p pending) same

/-- A step back seen on a sample leaves the client grace, the hysteresis and the anomaly run the time they
had. The requests on record, and those of the sample itself, keep their deadlines exactly when they are
told apart; and while they are, this tick and the later ones return what they return without the step. -/
theorem stepBack_keeps_timers (cfg : SchedulerConfig) (before : List Event) (hits : List (Level × Nat))
    (x : Sample) (steps : x.ts < (run cfg fresh before).lastTickNs)
    (fits : FitsTurn ((run cfg fresh before).lastTickNs - x.ts) (run cfg fresh before) (.sample hits x)) :
    let s := run cfg fresh before
    let back := s.lastTickNs - x.ts
    ((s.stepBack x.ts).lastClientActiveNs.map (x.ts - ·) = s.lastClientActiveNs.map (s.lastTickNs - ·) ∧
      (s.stepBack x.ts).lastAnomalyNs.map (x.ts - ·) = s.lastAnomalyNs.map (s.lastTickNs - ·) ∧
      (s.stepBack x.ts).anomalyRunStartNs.map (x.ts - ·) = s.anomalyRunStartNs.map (s.lastTickNs - ·)) ∧
    ((∀ id, deadline (takeTurn cfg s (.sample hits x)) id =
        Option.merge max ((deadline s id).map (· - back)) (hitsFor cfg hits id).max?) ↔
      Undisturbed cfg s (.sample hits x)) ∧
    ∀ rest, let turns := Turn.sample hits x :: rest
      Along (takeTurn cfg) (fun s turn => Undisturbed cfg s turn ∧ FitsTurn back s turn) s turns →
      Along (takeTurn cfg) (Undisturbed cfg) s (turns.map (laterTurn back)) →
      turnOutcomes cfg s (turns.map (laterTurn back)) = turnOutcomes cfg s turns := by
  intro s back
  refine ⟨?_, undisturbed_iff steps fits, ?_⟩
  · obtain ⟨-, -, unclamped, -⟩ := fits
    rw [stepBack_eq steps]
    refine ⟨?_, ?_, ?_⟩
    · exact map_elapsed steps fun t set => unclamped t (Or.inr (Or.inl set))
    · exact map_elapsed steps fun t set => unclamped t (Or.inl set)
    · exact map_elapsed steps fun t set => unclamped t (Or.inr (Or.inr set))
  · intro rest turns along along'
    obtain ⟨returned, same⟩ := sameTimers_of_step (founded_run cfg before) steps fits along.1.1 along'.1
    have later : turnOutcomes cfg _ (rest.map (laterTurn back)) = turnOutcomes cfg _ rest :=
      reports_eq (laterTurn back) same along.2 along'.2
        fun s r turn same kept kept' => same.takeTurn kept.2 kept.1 kept'
    exact congrArg₂ (· ++ ·) returned later

theorem stepBack_keeps_timers_moved :
    let before := [Event.tick (mkSample 0 100), .request Level.L3 1000 100]
    deadline (takeTurn {} (run {} fresh before) (.sample [] (mkSample 0 50))) Level.L3 = some 950 := by
  intro before
  have only : (run {} fresh before).requests = Function.update (fun _ => none) Level.L3 (some ⟨1000, 100⟩) := rfl
  have record (id : Level) (p : Request) (pending : (run {} fresh before).requests id = some p) :
      p = ⟨1000, 100⟩ := by
    rw [only] at pending
    by_cases this : id = Level.L3
    · rw [this, Function.update_self] at pending
      exact (Option.some.inj pending).symm
    · rw [Function.update_of_ne this] at pending
      cases pending
  have fits : FitsTurn 50 (run {} fresh before) (.sample [] (mkSample 0 50)) := by
    refine ⟨fun some => absurd rfl some, by decide, ?_, ?_⟩
    · rintro t (set | set | set) <;> cases set
    · intro id p pending
      rw [record id p pending]
      decide
  refine ((stepBack_keeps_timers {} before [] (mkSample 0 50) (by decide) fits).2.1.mpr ?_ Level.L3).trans
    (by decide)
  intro id p pending
  rw [record id p pending, if_pos (by decide)]
  simp only [hitsFor, List.filter_nil, List.map_nil, ite_self]
  exact Or.inr (by decide)

/-- A request made when the clock had not yet reached the time it stepped back to is left where it was. -/
theorem stepBack_leaves_request :
    let before := [Event.tick (mkSample 0 100), .request Level.L3 1000 100, .tick (mkSample 0 200)]
    let s := run {} fresh before
    let turns := [Turn.sample [] (mkSample 0 150), .sample [] (mkSample 0 960)]
    deadline s Level.L3 = some 1000 ∧ deadline (takeTurn {} s (.sample [] (mkSample 0 150))) Level.L3 = some 1000 ∧
      turnOutcomes {} s turns = [⟨Level.L3, .normal, false⟩, ⟨Level.L3, .normal, false⟩] ∧
      turnOutcomes {} s (turns.map (laterTurn 50)) =
        [⟨Level.L3, .normal, false⟩, ⟨Level.L1, .normal, false⟩] := by
  decide

/-! ## A request after the step -/

def Extends (cfg : SchedulerConfig) (s : Scheduler) : Event → Prop
  | .request level untilNs madeAtNs => isKnown cfg level →
      deadline (request cfg s level untilNs madeAtNs) level =
        Option.merge max (deadline s level) (some untilNs)
  | _ => True

def NotStale (cfg : SchedulerConfig) (s : Scheduler) : Event → Prop
  | .request level untilNs madeAtNs => isKnown cfg level →
      ∀ p, s.requests level = some p → madeAtNs = 0 ∨ p.madeNs ≤ madeAtNs ∨ p.untilNs ≤ untilNs
  | _ => True

theorem extends_iff (cfg : SchedulerConfig) (s : Scheduler) (e : Event) : Extends cfg s e ↔ NotStale cfg s e := by
  cases e with
  | request level untilNs madeAtNs =>
      refine imp_congr_right fun known => ?_
      rw [request_eq, deadline, deadline]
      simp only [known, true_and, if_true]
      cases pending : s.requests level with
      | none => simp [fileOne, Option.merge]
      | some p =>
          simp only [Option.some.injEq, forall_eq', Option.map_some, Option.merge, fileOne, Option.any_some,
            outlasts, Bool.and_eq_true, Bool.not_eq_true', Bool.and_eq_false_iff, decide_eq_false_iff_not,
            decide_eq_true_eq, not_not, gt_iff_lt, ge_iff_le]
          split_ifs with kept <;> simp only [Option.map_some, Option.some.injEq] <;> omega
  | _ => exact Iff.rfl

/-- In every run, requests never shorten the one on record exactly as long as none meets a longer one that
was made at a later time: on the clock before a step back. -/
theorem requests_never_shorten (cfg : SchedulerConfig) (events : List Event) :
    Along (step cfg) (Extends cfg) fresh events ↔ Along (step cfg) (NotStale cfg) fresh events :=
  along_congr (extends_iff cfg)

theorem request_shortens_moved :
    let before := [Event.tick (mkSample 0 100), .request Level.L3 1000 100, .tick (mkSample 0 50)]
    let s := run {} fresh before
    s.lastTickNs ≤ 60 ∧ deadline s Level.L3 = some 950 ∧
      deadline (request {} s Level.L3 200 60) Level.L3 = some 200 := by
  decide

end Budyk.Proof
