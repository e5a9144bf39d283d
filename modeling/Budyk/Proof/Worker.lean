import Budyk.Rules.Worker

namespace Budyk.Proof
open Lib Rules Workers

section Worker
variable {Job : Type} {s s' : Workers Job}

structure JobHistory (Job : Type) where
  accepted : List Job := []
  refused : List Job := []
  started : List Job := []
  finished : List Job := []
  cleared : List Job := []

def JobHistory.next (all : JobHistory Job) (s : Workers Job) (e : WorkerSection Job) : JobHistory Job where
  accepted := all.accepted ++ s.accepts e
  refused := all.refused ++ s.refuses e
  started := all.started ++ s.starts e
  finished := all.finished ++ s.finishes e
  cleared := all.cleared ++ s.clears e

inductive Effect (s : Workers Job) (all : JobHistory Job) : Workers Job → JobHistory Job → Prop
  | nothing : Effect s all s all
  | refused (job : Job) :
      Effect s all { s with worker := { s.worker with dropped := s.worker.dropped + 1 } }
        { all with refused := all.refused ++ [job] }
  | accepted (job : Job) (accepting : s.worker.stopping = false) (room : s.worker.queue.length < s.worker.capacity) :
      Effect s all { s with
          worker := { s.worker with started := true, queue := s.worker.queue ++ [job] }
          thread := if s.worker.started then s.thread else .waits }
        { all with accepted := all.accepted ++ [job] }
  | started (job : Job) (rest : List Job) (waits : s.thread = .waits) (queued : s.worker.queue = job :: rest) :
      Effect s all { s with worker := { s.worker with queue := rest, busy := true }, thread := .runs job }
        { all with started := all.started ++ [job] }
  | cleared (waits : s.thread = .waits) (stopping : s.worker.stopping = true) :
      Effect s all { s with
          worker := { s.worker with dropped := s.worker.dropped + s.worker.queue.length, queue := [] }
          thread := .returned }
        { all with cleared := all.cleared ++ s.worker.queue }
  | finished (job : Job) (runs : s.thread = .runs job) :
      Effect s all { s with worker := s.worker.finish, thread := .waits } { all with finished := all.finished ++ [job] }
  | unstarted (called : s.stop = .notCalled) (never : s.worker.started = false) :
      Effect s all { s with worker := { s.worker with stopping := true }, stop := .returned 0 } all
  | waits (called : s.stop = .notCalled) : Effect s all { s with stop := .waits } all
  | waited (waits : s.stop = .waits) : Effect s all { s with stop := .waited s.worker.idle } all
  | flags (idle : Bool) (waited : s.stop = .waited idle) :
      Effect s all { s with worker := s.worker.flag.2, stop := .joins s.worker.flag.1 } all
  | joins (left : Nat) (waits : s.stop = .joins left) (back : s.thread = .returned) :
      Effect s all { s with stop := .returned left } all

def flagged : StopCall → Bool
  | .joins _ | .returned _ => true
  | _ => false

def running : RunThread Job → List Job
  | .runs job => [job]
  | _ => []

structure WorkerPhases (s : Workers Job) : Prop where
  unstarted : s.worker.started = false ↔ s.thread = .none
  empty : s.thread = .none → s.worker.queue = []
  ended : s.thread = .returned → s.worker.queue = [] ∧ s.worker.stopping = true
  flag : s.worker.stopping = flagged s.stop
  back : ∀ left, s.stop = .returned left → s.thread = .none ∨ s.thread = .returned

/-- Every job accepted has started, waits or was dropped from the queue; the counters say how many. -/
structure WorkerBooks (s : Workers Job) (all : JobHistory Job) : Prop where
  jobs : all.accepted = all.started ++ s.worker.queue ++ all.cleared
  under : all.started = all.finished ++ running s.thread
  completed : s.worker.completed = all.finished.length
  dropped : s.worker.dropped = all.refused.length + all.cleared.length
  busy : s.worker.busy = !(running s.thread).isEmpty
  bounded : s.worker.queue.length ≤ s.worker.capacity
  uncleared : all.cleared = [] ∨ s.thread = .returned
  idle : s.stop = .joins 0 ∨ s.stop = .returned 0 →
    s.worker.queue = [] ∧ running s.thread = [] ∧ all.cleared = []

theorem post_cases (w : Worker Job) (job : Job) (created : Bool) :
    w.post job created = (false, { w with dropped := w.dropped + 1 }) ∨
    w.stopping = false ∧ w.queue.length < w.capacity ∧
      w.post job created = (true, { w with started := true, queue := w.queue ++ [job] }) := by
  unfold Worker.post
  split <;> rename_i full
  · exact .inl rfl
  · rw [Bool.or_eq_true, not_or, Bool.not_eq_true, decide_eq_true_iff, Nat.not_le] at full
    split
    · exact .inl rfl
    · exact .inr ⟨full.1, full.2, rfl⟩

theorem take_cases (w : Worker Job) :
    w.take = (.waits, w) ∨
    w.stopping = true ∧ w.take = (.returns, { w with dropped := w.dropped + w.queue.length, queue := [] }) ∨
    ∃ job rest, w.queue = job :: rest ∧ w.take = (.job job, { w with queue := rest, busy := true }) := by
  unfold Worker.take
  cases queued : w.queue with
  | nil =>
      have same : w = { w with dropped := w.dropped + 0, queue := [] } := by rw [← queued, Nat.add_zero]
      dsimp only
      split <;> rename_i stopping
      · exact .inr (.inl ⟨stopping, congrArg _ same⟩)
      · exact .inl rfl
  | cons job rest =>
      dsimp only
      split <;> rename_i cancelled
      · exact .inr (.inl ⟨(Bool.and_eq_true_iff.mp cancelled).1, rfl⟩)
      · exact .inr (.inr ⟨job, rest, rfl, rfl⟩)

section Effect
variable (all : JobHistory Job)

theorem post_effect (job : Job) (created : Bool) :
    Effect s all (s.step (.post job created)) (all.next s (.post job created)) := by
  simp only [step, JobHistory.next, accepts, refuses, starts, finishes, clears, List.append_nil]
  obtain same | ⟨accepting, room, same⟩ := post_cases s.worker job created
  all_goals rw [same]
  · simpa using (.refused job : Effect s all _ _)
  · have thread : (if (true && !s.worker.started) = true then .waits else s.thread) =
        if s.worker.started then s.thread else .waits := by cases s.worker.started <;> rfl
    dsimp only
    rw [thread, if_pos rfl, if_pos rfl, List.append_nil]
    exact .accepted job accepting room

theorem take_effect : Effect s all (s.step .take) (all.next s .take) := by
  simp only [step, JobHistory.next, accepts, refuses, starts, finishes, clears, List.append_nil]
  cases waits : s.thread with
  | waits =>
      obtain same | ⟨stopping, same⟩ | ⟨job, rest, queued, same⟩ := take_cases s.worker
      all_goals rw [same]
      · simpa using Effect.nothing
      · simpa using (.cleared waits stopping : Effect s all _ _)
      · simpa using (.started job rest waits queued : Effect s all _ _)
  | _ => simpa using Effect.nothing

theorem finish_effect : Effect s all (s.step .finish) (all.next s .finish) := by
  simp only [step, JobHistory.next, accepts, refuses, starts, finishes, clears, List.append_nil]
  cases runs : s.thread with
  | runs job => exact .finished job runs
  | _ => simpa using Effect.nothing

end Effect

theorem step_effect (all : JobHistory Job) (flag : s.worker.stopping = flagged s.stop) (e : WorkerSection Job) :
    Effect s all (s.step e) (all.next s e) := by
  have quiet (e : WorkerSection Job) (a : s.accepts e = []) (r : s.refuses e = []) (b : s.starts e = [])
      (f : s.finishes e = []) (c : s.clears e = []) : all.next s e = all := by
    simp [JobHistory.next, a, r, b, f, c]
  cases e with
  | post job created => exact post_effect all job created
  | take => exact take_effect all
  | finish => exact finish_effect all
  | stopBegins =>
      rw [quiet .stopBegins rfl rfl rfl rfl rfl, step]
      cases called : s.stop with
      | notCalled =>
          dsimp only
          split <;> rename_i never
          · exact .unstarted called (by simpa using never)
          · rw [called] at flag
            rw [if_neg (by simp [flag, flagged])]
            exact .waits called
      | _ => exact .nothing
  | stopWaited timedOut =>
      rw [quiet (.stopWaited timedOut) rfl rfl rfl rfl rfl, step]
      cases called : s.stop with
      | waits =>
          dsimp only
          split
          · exact .waited called
          · exact .nothing
      | _ => exact .nothing
  | stopFlags =>
      rw [quiet .stopFlags rfl rfl rfl rfl rfl, step]
      cases called : s.stop with
      | waited idle => exact .flags idle called
      | _ => exact .nothing
  | stopJoins =>
      rw [quiet .stopJoins rfl rfl rfl rfl rfl, step]
      split
      next left waits back => exact .joins left waits back
      next => exact .nothing

theorem WorkerBooks.running_none {all : JobHistory Job} (books : WorkerBooks s all) (quiet : s.worker.busy = false) :
    running s.thread = [] := by
  have none := books.busy
  rw [quiet, eq_comm, Bool.not_eq_false', List.isEmpty_iff] at none
  exact none

/-- Jobs are dropped from the queue by the thread that returns, and it returns once the flag is up. -/
theorem WorkerBooks.none_cleared {all : JobHistory Job} (books : WorkerBooks s all) (phases : WorkerPhases s)
    (accepting : s.worker.stopping = false) : all.cleared = [] := by
  refine books.uncleared.resolve_right ?_
  intro back
  rw [(phases.ended back).2] at accepting
  cases accepting

theorem WorkerPhases.same_running (phases : WorkerPhases s) :
    running (if s.worker.started then s.thread else .waits) = running s.thread := by
  split <;> rename_i begun
  · rfl
  · rw [phases.unstarted.mp (Bool.eq_false_iff.mpr begun)]
    rfl

theorem flag_nothing {w : Worker Job} (none : w.flag.1 = 0) : w.queue = [] ∧ w.busy = false := by
  change w.queue.length + (if w.busy then 1 else 0) = 0 at none
  refine ⟨List.length_eq_zero_iff.mp (Nat.add_eq_zero_iff.mp none).1, ?_⟩
  cases busy : w.busy with
  | true => simp [busy] at none
  | false => rfl

theorem effect_phases {all all' : JobHistory Job} (phases : WorkerPhases s) (effect : Effect s all s' all') :
    WorkerPhases s' := by
  obtain ⟨unstarted, empty, ended, flag, back⟩ := phases
  cases effect with
  | nothing => exact ⟨unstarted, empty, ended, flag, back⟩
  | refused job => exact ⟨unstarted, empty, ended, flag, back⟩
  | accepted job accepting room => constructor <;> grind [flagged]
  | started job rest waits queued => constructor <;> grind [flagged]
  | cleared waits stopping => constructor <;> grind [flagged]
  | finished job runs => constructor <;> grind [flagged, Worker.finish]
  | unstarted called never => constructor <;> grind [flagged]
  | waits called => constructor <;> grind [flagged]
  | waited waits => constructor <;> grind [flagged]
  | flags idle waited => constructor <;> grind [flagged, Worker.flag]
  | joins left waits back => constructor <;> grind [flagged]

theorem effect_books {all all' : JobHistory Job} (phases : WorkerPhases s) (books : WorkerBooks s all)
    (effect : Effect s all s' all') : WorkerBooks s' all' := by
  cases effect with
  | nothing => exact books
  | refused job =>
      refine { books with dropped := ?_ }
      change s.worker.dropped + 1 = (all.refused ++ [job]).length + all.cleared.length
      rw [books.dropped, List.length_append, List.length_singleton]
      omega
  | accepted job accepting room =>
      have open' : flagged s.stop = false := phases.flag.symm.trans accepting
      have uncleared := books.none_cleared phases accepting
      refine { books with jobs := ?_, under := ?_, busy := ?_, bounded := ?_, uncleared := .inl uncleared, idle := ?_ }
      · change all.accepted ++ [job] = all.started ++ (s.worker.queue ++ [job]) ++ all.cleared
        rw [books.jobs, uncleared, List.append_nil, List.append_nil, List.append_assoc]
      · rw [phases.same_running]
        exact books.under
      · rw [phases.same_running]
        exact books.busy
      · rw [List.length_append]
        exact room
      · intro found
        rcases found with found | found
        all_goals
          change s.stop = _ at found
          rw [found] at open'
          cases open'
  | started job rest waits queued =>
      have uncleared : all.cleared = [] := books.uncleared.resolve_right (by simp [waits])
      have none : running s.thread = [] := by rw [waits]; rfl
      refine { books with
        jobs := ?_, under := ?_, busy := rfl, bounded := ?_, uncleared := .inl uncleared, idle := ?_ }
      · change all.accepted = all.started ++ [job] ++ rest ++ all.cleared
        rw [books.jobs, queued, uncleared, List.append_nil, List.append_nil, List.append_cons]
      · change all.started ++ [job] = all.finished ++ [job]
        rw [books.under, none, List.append_nil]
      · have before := books.bounded
        rw [queued] at before
        exact Nat.le_of_succ_le before
      · intro found
        have nothing := (books.idle found).1
        rw [queued] at nothing
        cases nothing
  | cleared waits stopping =>
      have uncleared : all.cleared = [] := books.uncleared.resolve_right (by simp [waits])
      have none : running s.thread = [] := by rw [waits]; rfl
      refine { books with
        jobs := ?_, under := ?_, dropped := ?_, busy := ?_, bounded := Nat.zero_le _, uncleared := .inr rfl, idle := ?_ }
      · change all.accepted = all.started ++ [] ++ (all.cleared ++ s.worker.queue)
        rw [books.jobs, uncleared, List.append_nil, List.append_nil, List.nil_append]
      · rw [books.under, none]
        rfl
      · change s.worker.dropped + s.worker.queue.length = all.refused.length + (all.cleared ++ s.worker.queue).length
        rw [books.dropped, List.length_append, Nat.add_assoc]
      · change s.worker.busy = _
        rw [books.busy, none]
        rfl
      · intro found
        refine ⟨rfl, rfl, ?_⟩
        change all.cleared ++ s.worker.queue = []
        rw [uncleared, (books.idle found).1, List.append_nil]
  | finished job runs =>
      have uncleared : all.cleared = [] := books.uncleared.resolve_right (by simp [runs])
      have one : running s.thread = [job] := by rw [runs]; rfl
      refine { books with under := ?_, completed := ?_, busy := rfl, uncleared := .inl uncleared, idle := ?_ }
      · rw [books.under, one]
        exact (List.append_nil _).symm
      · change s.worker.completed + 1 = (all.finished ++ [job]).length
        rw [books.completed, List.length_append, List.length_singleton]
      · intro found
        have nothing := (books.idle found).2.1
        rw [one] at nothing
        cases nothing
  | unstarted called never =>
      have unmade := phases.unstarted.mp never
      refine { books with idle := ?_ }
      intro _
      refine ⟨phases.empty unmade, ?_, books.uncleared.resolve_right (by simp [unmade])⟩
      change running s.thread = []
      rw [unmade]
      rfl
  | waits called => exact { books with idle := by rintro (found | found) <;> cases found }
  | waited waits => exact { books with idle := by rintro (found | found) <;> cases found }
  | flags idle waited =>
      refine { books with idle := ?_ }
      rintro (found | found)
      · -- Nothing was queued or running when the flag went up, nor had anything been cleared.
        have nothing := flag_nothing (StopCall.joins.inj found)
        have accepting : s.worker.stopping = false := by rw [phases.flag, waited]; rfl
        exact ⟨nothing.1, books.running_none nothing.2, books.none_cleared phases accepting⟩
      · cases found
  | joins left waits back =>
      refine { books with idle := ?_ }
      rintro (found | found)
      · cases found
      · rw [StopCall.returned.inj found] at waits
        exact books.idle (.inl waits)

def jobHistory (s : Workers Job) (run : List (WorkerSection Job)) : JobHistory Job where
  accepted := reports step accepts s run
  refused := reports step refuses s run
  started := reports step starts s run
  finished := reports step finishes s run
  cleared := reports step clears s run

theorem jobHistory_concat (s : Workers Job) (run : List (WorkerSection Job)) (e : WorkerSection Job) :
    jobHistory s (run ++ [e]) = (jobHistory s run).next (run.foldl step s) e := by
  simp only [jobHistory, JobHistory.next, reports_append, reports, List.append_nil]

theorem run_books (capacity : Nat) (run : List (WorkerSection Job)) :
    WorkerPhases (run.foldl step (new capacity)) ∧
      WorkerBooks (run.foldl step (new capacity)) (jobHistory (new capacity) run) := by
  induction run using List.reverseRecOn with
  | nil =>
      refine ⟨⟨⟨fun _ => rfl, fun _ => rfl⟩, fun _ => rfl, ?_, rfl, ?_⟩,
        ⟨rfl, rfl, rfl, rfl, rfl, Nat.zero_le _, .inl rfl, fun _ => ⟨rfl, rfl, rfl⟩⟩⟩
      · intro back
        cases back
      · intro left back
        cases back
  | append_singleton run e ih =>
      obtain ⟨phases, books⟩ := ih
      have effect := step_effect (jobHistory (new capacity) run) phases.flag e
      rw [List.foldl_append, jobHistory_concat]
      exact ⟨effect_phases phases effect, effect_books phases books effect⟩

def isPost : WorkerSection Job → Bool
  | .post _ _ => true
  | _ => false

theorem posts_answered (s : Workers Job) (run : List (WorkerSection Job)) :
    run.countP isPost = (jobHistory s run).accepted.length + (jobHistory s run).refused.length := by
  have one (s : Workers Job) (e : WorkerSection Job) :
      (if isPost e then 1 else 0) = (s.accepts e).length + (s.refuses e).length := by
    cases e with
    | post job created =>
        rw [accepts, refuses]
        cases (s.worker.post job created).1 <;> rfl
    | _ => rfl
  induction run generalizing s with
  | nil => rfl
  | cons e rest ih =>
      have later := ih (s.step e)
      have first := one s e
      simp only [jobHistory, reports, List.length_append, List.countP_cons] at later ⊢
      omega

theorem effect_back {all all' : JobHistory Job} {left : Nat} (back : s.stop = .returned left)
    (effect : Effect s all s' all') : s'.stop = .returned left := by
  cases effect <;> simp_all

theorem none_starts (phases : WorkerPhases s) {left : Nat} (back : s.stop = .returned left)
    (rest : List (WorkerSection Job)) : reports step starts s rest = [] := by
  induction rest generalizing s with
  | nil => rfl
  | cons e rest ih =>
      have effect := step_effect {} phases.flag e
      have none : s.starts e = [] := by
        cases e with
        | take =>
            rw [starts]
            rcases phases.back left back with thread | thread
            all_goals rw [thread]
        | _ => rfl
      rw [reports, none, List.nil_append]
      exact ih (effect_phases phases effect) (effect_back back effect)

theorem effect_capacity {all all' : JobHistory Job} (effect : Effect s all s' all') :
    s'.worker.capacity = s.worker.capacity := by
  cases effect <;> rfl

theorem run_capacity (capacity : Nat) (run : List (WorkerSection Job)) :
    (run.foldl step (new capacity)).worker.capacity = max capacity 1 := by
  induction run using List.reverseRecOn with
  | nil =>
      change (if capacity > 0 then capacity else 1) = _
      split <;> omega
  | append_singleton run e ih =>
      have effect := step_effect {} (run_books capacity run).1.flag e
      rw [List.foldl_append, ← ih]
      exact effect_capacity effect

structure JobsCounted (capacity posts : Nat) (s : Workers Job) (all : JobHistory Job) : Prop where
  order : all.started <+: all.accepted
  bounded : s.worker.queue.length ≤ max capacity 1
  posts : posts = s.worker.completed + s.worker.dropped + s.worker.queue.length + if s.worker.busy then 1 else 0
  completed : s.worker.completed = all.finished.length
  dropped : s.worker.dropped = all.refused.length + all.cleared.length
  waited : s.worker.stopping = false → s.worker.idle → all.accepted = all.finished

/-- What holds once `stop` has returned, having found `left` jobs unfinished. -/
structure JobsSettled (left : Nat) (s : Workers Job) (all : JobHistory Job) : Prop where
  queued : s.worker.queue = []
  running : s.worker.busy = false
  later : ∀ rest, reports step starts s rest = []
  jobs : all.accepted = all.finished ++ all.cleared
  idle : left = 0 → all.accepted = all.finished

theorem books_counted {all : JobHistory Job} {capacity posts : Nat} (phases : WorkerPhases s) (books : WorkerBooks s all)
    (room : s.worker.capacity = max capacity 1) (answered : posts = all.accepted.length + all.refused.length) :
    JobsCounted capacity posts s all where
  order := by
    rw [books.jobs, List.append_assoc]
    exact List.prefix_append _ _
  bounded := room ▸ books.bounded
  posts := by
    have one : (running s.thread).length = if s.worker.busy then 1 else 0 := by
      rw [books.busy]
      cases s.thread <;> rfl
    rw [answered, books.jobs, books.under, books.completed, books.dropped, ← one]
    simp only [List.length_append]
    omega
  completed := books.completed
  dropped := books.dropped
  waited accepting idle := by
    rw [Worker.idle, Bool.and_eq_true, List.isEmpty_iff, Bool.not_eq_true'] at idle
    have none := books.running_none idle.2
    rw [books.jobs, books.under, none, idle.1, books.none_cleared phases accepting, List.append_nil, List.append_nil,
      List.append_nil]

theorem books_settled {all : JobHistory Job} {left : Nat} (phases : WorkerPhases s) (books : WorkerBooks s all)
    (back : s.stop = .returned left) : JobsSettled left s all := by
  have thread := phases.back left back
  have queued : s.worker.queue = [] := thread.elim phases.empty fun ended => (phases.ended ended).1
  have none : running s.thread = [] := by rcases thread with thread | thread <;> rw [thread] <;> rfl
  have jobs : all.accepted = all.finished ++ all.cleared := by
    rw [books.jobs, books.under, none, queued, List.append_nil, List.append_nil]
  refine ⟨queued, ?_, none_starts phases back, jobs, ?_⟩
  · rw [books.busy, none]
    rfl
  · intro zero
    rw [zero] at back
    rw [jobs, (books.idle (.inr back)).2.2, List.append_nil]

/-- Every job posted is accounted for, in any order of the threads' sections. -/
theorem worker_accounting (capacity : Nat) (run : List (WorkerSection Job)) :
    JobsCounted capacity (run.countP isPost) (run.foldl step (new capacity)) (jobHistory (new capacity) run) ∧
    ∀ left, (run.foldl step (new capacity)).stop = .returned left →
      JobsSettled left (run.foldl step (new capacity)) (jobHistory (new capacity) run) := by
  obtain ⟨phases, books⟩ := run_books capacity run
  refine ⟨books_counted phases books (run_capacity capacity run) (posts_answered (new capacity) run), ?_⟩
  intro left back
  exact books_settled phases books back

end Worker

/-- Two jobs, the second posted between the wait and the flag: it is dropped. -/
def latePost : List (WorkerSection Nat) :=
  [.post 1 true, .take, .finish, .stopBegins, .stopWaited false, .post 2 true, .stopFlags, .take, .stopJoins]

theorem worker_accounting_late_post :
    (latePost.foldl step (new 4)).stop = .returned 1 ∧
    JobsSettled 1 (latePost.foldl step (new 4)) (jobHistory (new 4) latePost) :=
  ⟨rfl, (worker_accounting 4 latePost).2 1 rfl⟩

end Budyk.Proof
