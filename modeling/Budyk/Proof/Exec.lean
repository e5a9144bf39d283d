import Budyk.Lib.Segments
import Budyk.Proof.Allowlists
import Budyk.Proof.Worker
import Budyk.Rules.Exec

/-! What `exec` runs, over whole runs of the engine: the gates a command has passed when it reaches the queue or is run. -/

namespace Budyk.Proof
open Lib Rules

theorem slashDots : text "/.." = slash :: text ".." := by decide

theorem dots_whole : slash ∉ text ".." := by decide

/-- Somewhere a `/..` ends its segment. -/
def Climbs (s : List UInt8) : Prop := ∃ k, text "/.." <+: s.drop k ∧ SegmentEnds slash (s.drop (k + 3))

theorem climbs_iff (s : List UInt8) : Climbs s ↔ text ".." ∈ (s.splitOn slash).tail := by
  rw [mem_splitOn_tail_iff dots_whole]
  constructor
  · rintro ⟨k, ⟨rest, here⟩, ends⟩
    rw [slashDots, List.cons_append] at here
    have behind : s.drop (k + 3) = rest := by
      rw [← List.drop_drop, ← here]
      rfl
    rw [behind] at ends
    exact ⟨s.take k, rest, by rw [here, List.take_append_drop], ends⟩
  · rintro ⟨before, rest, rfl, ends⟩
    refine ⟨before.length, ?_, ?_⟩
    · rw [List.drop_left, slashDots]
      exact ⟨rest, rfl⟩
    · rw [← List.drop_drop, List.drop_left]
      exact ends

/-- Behind a `/..` whose segment goes on, the search misses nothing: neither dot is a `/`. -/
theorem climbs_behind {s : List UInt8} {pos : Nat} (found : find (text "/..") s = some pos)
    (longer : ¬SegmentEnds slash (s.drop (pos + 3))) : Climbs s ↔ Climbs (s.drop (pos + 3)) := by
  obtain ⟨⟨rest, here⟩, first⟩ := find_some found
  have dot (k : Nat) (small : k < 2) : ¬text "/.." <+: s.drop (pos + (k + 1)) := by
    rw [← List.drop_drop, ← here]
    have other : k = 0 ∨ k = 1 := by omega
    rintro ⟨after, same⟩
    rcases other with rfl | rfl
    · exact absurd (List.cons.inj same).1 (by decide)
    · exact absurd (List.cons.inj same).1 (by decide)
  constructor
  · rintro ⟨k, there, ends⟩
    have late : pos ≤ k := not_lt.mp fun soon => first k soon there
    obtain ⟨gap, rfl⟩ := Nat.exists_eq_add_of_le late
    match gap with
    | 0 => exact absurd ends longer
    | 1 => exact absurd there (dot 0 (by decide))
    | 2 => exact absurd there (dot 1 (by decide))
    | gap + 3 =>
        refine ⟨gap, ?_, ?_⟩
        · rwa [List.drop_drop, show pos + 3 + gap = pos + (gap + 3) by omega]
        · rwa [List.drop_drop, show pos + 3 + (gap + 3) = pos + (gap + 3) + 3 by omega]
  · rintro ⟨k, there, ends⟩
    rw [List.drop_drop] at there ends
    exact ⟨pos + 3 + k, there, by rwa [show pos + 3 + k + 3 = pos + 3 + (k + 3) by omega]⟩

theorem containsTraversal_iff (s : List UInt8) : containsTraversal s = true ↔ Climbs s := by
  induction s using containsTraversal.induct with
  | case1 s absent =>
      rw [containsTraversal, absent]
      refine iff_of_false Bool.false_ne_true ?_
      rintro ⟨k, there, -⟩
      exact find_none absent k there
  | case2 s pos found rest ih =>
      rw [containsTraversal, found]
      simp only [Bool.or_eq_true, decide_eq_true_eq]
      rw [show (s.drop (pos + 3) = [] ∨ (s.drop (pos + 3)).head? = some slash) = SegmentEnds slash (s.drop (pos + 3)) from rfl, ih]
      by_cases ends : SegmentEnds slash (s.drop (pos + 3))
      · exact iff_of_true (.inl ends) ⟨pos, (find_some found).1, ends⟩
      · rw [or_iff_right ends, climbs_behind found ends]

theorem containsTraversal_segments (s : List UInt8) : containsTraversal s = true ↔ text ".." ∈ (s.splitOn slash).tail :=
  (containsTraversal_iff s).trans (climbs_iff s)

theorem traversal_absolute {path : List UInt8} (absolute : path.head? = some slash) :
    containsTraversal path = true ↔ text ".." ∈ path.splitOn slash := by
  rw [containsTraversal_segments, splitOn_eq path, List.tail_cons, List.mem_cons]
  refine (or_iff_right ?_).symm
  cases path with
  | nil => cases absolute
  | cons b path =>
      rw [List.head?_cons, Option.some.injEq] at absolute
      rw [absolute, List.takeWhile_cons_of_neg (by decide)]
      decide

/-! ## The gates -/

/-- A command that may run: what the daemon's operator, the loading of a file, the arguments, the path and the allowlist
have to say to it. -/
structure Allowed (s : ExecEngine) (files : Files) (argv : Argv) : Prop where
  enabled : s.execEnabled = true
  running : s.loading = false
  whole : ∀ arg ∈ argv.all, 0 ∉ arg
  short : (argv.all.map fun arg => arg.length + 1).sum ≤ kMaxExecArgvBytes
  absolute : argv.cmd.head? = some slash
  straight : text ".." ∉ argv.cmd.splitOn slash
  listed : s.allow.written ≠ [] → ∃ (i : Nat) (entry : List UInt8), s.allow.written[i]? = some entry ∧
    s.allow.resolved[i]? = some (files.resolved argv.cmd) ∧ base entry = base argv.cmd

def Resolved (s : ExecEngine) : Prop := s.allow.resolved.length = s.allow.written.length

theorem listed_iff (files : Files) (allow : ExecAllowlist) (cmd : List UInt8) :
    listed files allow cmd = true ↔ ∃ (i : Nat) (entry : List UInt8), allow.written[i]? = some entry ∧
      allow.resolved[i]? = some (files.resolved cmd) ∧ base entry = base cmd := by
  simp only [Rules.listed, List.any_eq_true, Bool.and_eq_true, decide_eq_true_eq, Prod.exists, List.mem_iff_getElem?,
    List.getElem?_zip_eq_some]
  constructor
  · rintro ⟨target, entry, ⟨i, led, written⟩, rfl, named⟩
    exact ⟨i, entry, written, led, named⟩
  · rintro ⟨i, entry, written, led, named⟩
    exact ⟨_, entry, ⟨i, led, written⟩, rfl, named⟩

/-- The checks of `exec_impl` are the gates it is responsible for, all of them and no more. -/
theorem allowed_iff {s : ExecEngine} (resolved : Resolved s) (files : Files) (argv : Argv) :
    Allowed s files argv ↔
      s.execEnabled = true ∧ s.loading = false ∧ execRefused files s.allow argv.cmd argv.args = none := by
  have empty : s.allow.resolved = [] ↔ s.allow.written = [] := by
    rw [← List.length_eq_zero_iff, resolved, List.length_eq_zero_iff]
  rw [execRefused_none_iff, empty, listed_iff]
  constructor
  · intro allowed
    refine ⟨allowed.enabled, allowed.running, allowed.whole, allowed.short, allowed.absolute, ?_, ?_⟩
    · rw [Bool.eq_false_iff, ne_eq, traversal_absolute allowed.absolute]
      exact allowed.straight
    · exact or_iff_not_imp_left.mpr allowed.listed
  · rintro ⟨enabled, running, whole, short, absolute, straight, among⟩
    refine ⟨enabled, running, whole, short, absolute, ?_, or_iff_not_imp_left.mp among⟩
    rw [← traversal_absolute absolute]
    exact Bool.eq_false_iff.mp straight

section Run
variable {isNumeral : List UInt8 → Bool}

inductive Did (s : ExecEngine) (moment : ExecMoment) : Except (List UInt8) ExecOutcome → ExecEngine → Prop
  | raised (err : List UInt8) : Did s moment (.error err) s
  | kept (args : LuaArg × LuaArg) (loading : s.loading = true) :
      Did s moment (.ok .checked) { s with deferred := s.deferred ++ [args] }
  | posted (job : ExecJob) (enabled : s.execEnabled = true) (running : s.loading = false)
      (passes : execRefused moment.files s.allow job.argv.cmd job.argv.args = none) :
      Did s moment (.ok (if (s.workers.worker.post job moment.created).1 then .queued job else .queueFull))
        { s with workers := s.workers.step (.post job moment.created) }
  | ran (argv : Argv) (timeoutS : Nat) (rc : Int) (res : ExecResult) (enabled : s.execEnabled = true)
      (running : s.loading = false) (passes : execRefused moment.files s.allow argv.cmd argv.args = none) :
      Did s moment (.ok (.ran argv timeoutS rc res)) s

theorem lExec_did (s : ExecEngine) (moment : ExecMoment) (first second : LuaArg) :
    Did s moment (s.lExec isNumeral moment first second).1 (s.lExec isNumeral moment first second).2 := by
  obtain ⟨live, execEnabled, loading, allow, workers, deferred⟩ := s
  unfold ExecEngine.lExec ExecEngine.execImpl
  cases execEnabled with
  | false => exact .raised _
  | true =>
      cases readOptions isNumeral second with
      | error err => exact .raised err
      | ok options =>
          cases readArgv first with
          | error err => exact .raised err
          | ok argv =>
              dsimp only
              cases passes : execRefused moment.files allow argv.cmd argv.args with
              | some err => exact .raised err
              | none =>
                  cases loading with
                  | true => exact .kept (first, second) rfl
                  | false =>
                      cases options.wait with
                      | true => exact .ran argv _ _ _ rfl rfl passes
                      | false =>
                          have posted : Did ⟨live, true, false, allow, workers, deferred⟩ moment _ _ :=
                            .posted ⟨argv, execLine argv, options.timeoutS⟩ rfl rfl passes
                          revert posted
                          dsimp only
                          cases (workers.worker.post ⟨argv, execLine argv, options.timeoutS⟩ moment.created).1 with
                          | true => exact id
                          | false => exact id

/-! ## Runs -/

theorem did_allow {s after : ExecEngine} {moment : ExecMoment} {outcome : Except (List UInt8) ExecOutcome}
    (did : Did s moment outcome after) : after.allow = s.allow := by
  cases did with
  | raised err => rfl
  | kept args loading => rfl
  | posted job enabled running passes => rfl
  | ran argv timeoutS rc res enabled running passes => rfl

theorem step_resolved (s : ExecEngine) (e : ExecEvent) (resolved : Resolved s) : Resolved (s.step isNumeral e) := by
  unfold ExecEngine.step Resolved
  split
  next moment first second called =>
    rw [did_allow (lExec_did s moment first second)]
    exact resolved
  next =>
    cases e with
    | init execEnabled made =>
        dsimp only
        split
        next => exact resolved
        next => exact resolved
    | setExecAllowlist files paths => exact List.length_map _
    | worker section_ => cases section_ <;> exact resolved
    | _ => exact resolved

theorem reached_allowed (s : ExecEngine) (e : ExecEvent) (resolved : Resolved s) :
    ∀ reach ∈ s.reached isNumeral e, Allowed s reach.1 reach.2 := by
  intro reach held
  unfold ExecEngine.reached at held
  split at held
  next moment first second called =>
    have did := @lExec_did isNumeral s moment first second
    revert held did
    generalize s.lExec isNumeral moment first second = result
    obtain ⟨outcome, after⟩ := result
    intro held did
    cases did with
    | raised err => cases held
    | kept args loading => cases held
    | posted job enabled running passes =>
        cases posted : (s.workers.worker.post job moment.created).1 with
        | false =>
            rw [posted] at held
            cases held
        | true =>
            rw [posted] at held
            rw [List.mem_singleton.mp held]
            exact (allowed_iff resolved _ _).mpr ⟨enabled, running, passes⟩
    | ran argv timeoutS rc res enabled running passes =>
        rw [List.mem_singleton.mp held]
        exact (allowed_iff resolved _ _).mpr ⟨enabled, running, passes⟩
  next => cases held

theorem step_workers (s : ExecEngine) (e : ExecEvent) : ∃ run : List (WorkerSection ExecJob),
    (s.step isNumeral e).workers = run.foldl Workers.step s.workers ∧
      s.queues isNumeral e = reports Workers.step Workers.accepts s.workers run ∧
      s.starts e = reports Workers.step Workers.starts s.workers run := by
  unfold ExecEngine.step ExecEngine.queues
  split
  next moment first second called =>
    have starts : s.starts e = [] := by
      cases e with
      | worker section_ => cases called
      | _ => rfl
    have did := @lExec_did isNumeral s moment first second
    rw [starts]
    revert did
    generalize s.lExec isNumeral moment first second = result
    obtain ⟨outcome, after⟩ := result
    intro did
    cases did with
    | raised err => exact ⟨[], rfl, rfl, rfl⟩
    | kept args loading => exact ⟨[], rfl, rfl, rfl⟩
    | posted job enabled running passes =>
        refine ⟨[.post job moment.created], rfl, ?_, rfl⟩
        rw [reports, reports, List.append_nil, Workers.accepts]
        cases (s.workers.worker.post job moment.created).1 with
        | false => rfl
        | true => rfl
    | ran argv timeoutS rc res enabled running passes => exact ⟨[], rfl, rfl, rfl⟩
  next quiet =>
    cases e with
    | worker section_ =>
        cases section_ with
        | post job created => exact ⟨[], rfl, rfl, rfl⟩
        | take => exact ⟨[.take], rfl, rfl, (List.append_nil _).symm⟩
        | finish => exact ⟨[.finish], rfl, rfl, rfl⟩
        | stopBegins => exact ⟨[.stopBegins], rfl, rfl, rfl⟩
        | stopWaited timedOut => exact ⟨[.stopWaited timedOut], rfl, rfl, rfl⟩
        | stopFlags => exact ⟨[.stopFlags], rfl, rfl, rfl⟩
        | stopJoins => exact ⟨[.stopJoins], rfl, rfl, rfl⟩
    | init execEnabled made =>
        refine ⟨[], ?_, rfl, rfl⟩
        dsimp only
        split
        next => rfl
        next => rfl
    | _ => exact ⟨[], rfl, rfl, rfl⟩

theorem run_workers (s : ExecEngine) (events : List ExecEvent) : ∃ run : List (WorkerSection ExecJob),
    (events.foldl (ExecEngine.step isNumeral) s).workers = run.foldl Workers.step s.workers ∧
      reports (ExecEngine.step isNumeral) (ExecEngine.queues isNumeral) s events =
        reports Workers.step Workers.accepts s.workers run ∧
      reports (ExecEngine.step isNumeral) ExecEngine.starts s events =
        reports Workers.step Workers.starts s.workers run := by
  induction events generalizing s with
  | nil => exact ⟨[], rfl, rfl, rfl⟩
  | cons e rest ih =>
      obtain ⟨first, next, queued, started⟩ := @step_workers isNumeral s e
      obtain ⟨later, after, queuedLater, startedLater⟩ := ih (s.step isNumeral e)
      rw [next] at after queuedLater startedLater
      refine ⟨first ++ later, ?_, ?_, ?_⟩
      · rw [List.foldl_cons, after, List.foldl_append]
      · rw [reports, queued, queuedLater, reports_append]
      · rw [reports, started, startedLater, reports_append]

theorem starts_queued (capacity : Nat) (events : List ExecEvent) :
    reports (ExecEngine.step isNumeral) ExecEngine.starts (.new capacity) events <+:
      reports (ExecEngine.step isNumeral) (ExecEngine.queues isNumeral) (.new capacity) events := by
  obtain ⟨run, -, queued, started⟩ := @run_workers isNumeral (.new capacity) events
  have books := (run_books capacity run).2.jobs
  rw [queued, started]
  refine ⟨(run.foldl Workers.step (Workers.new capacity)).worker.queue ++ (jobHistory (Workers.new capacity) run).cleared, ?_⟩
  rw [← List.append_assoc]
  exact books.symm

theorem exec_gated (isNumeral : List UInt8 → Bool) (capacity : Nat) (events : List ExecEvent) :
    Along (ExecEngine.step isNumeral) (fun s e => ∀ reach ∈ s.reached isNumeral e, Allowed s reach.1 reach.2) (.new capacity)
      events ∧
    reports (ExecEngine.step isNumeral) ExecEngine.starts (.new capacity) events <+:
      reports (ExecEngine.step isNumeral) (ExecEngine.queues isNumeral) (.new capacity) events ∧
    (∀ path, containsTraversal path = true ↔ text ".." ∈ (path.splitOn slash).tail) ∧
    ∀ path, containsTraversal (slash :: path) = true ↔ text ".." ∈ (slash :: path).splitOn slash :=
  ⟨along_of_inv step_resolved reached_allowed (show Resolved (.new capacity) from rfl) events, starts_queued capacity events, containsTraversal_segments,
    fun _ => traversal_absolute rfl⟩

end Run

end Budyk.Proof
