import Budyk.Lib.Along

/-! The background thread of the rules' actions (`rules/worker.cpp`): its critical sections, and the threads that take
them in turn. -/

namespace Budyk.Rules
variable {Job : Type}

structure Worker (Job : Type) where
  capacity : Nat
  queue : List Job := []
  busy : Bool := false
  stopping : Bool := false
  started : Bool := false
  cancel : Bool := false
  completed : Nat := 0
  dropped : Nat := 0

namespace Worker

def new (capacity : Nat) : Worker Job := { capacity := if capacity > 0 then capacity else 1 }

/-- `created` says whether a thread can be made. -/
def post (w : Worker Job) (job : Job) (created : Bool) : Bool × Worker Job :=
  if w.stopping || w.queue.length ≥ w.capacity then (false, { w with dropped := w.dropped + 1 })
  else if !w.started && !created then (false, { w with dropped := w.dropped + 1 })
  else (true, { w with started := true, queue := w.queue ++ [job] })

def idle (w : Worker Job) : Bool := w.queue.isEmpty && !w.busy

inductive Taken (Job : Type)
  | waits
  | returns
  | job (job : Job)

/-- The section of `run` that takes a job. -/
def take (w : Worker Job) : Taken Job × Worker Job :=
  match w.queue with
  | [] => if w.stopping then (.returns, w) else (.waits, w)
  | job :: rest =>
      if w.stopping && w.cancel then
        -- what is still queued will not run
        (.returns, { w with dropped := w.dropped + w.queue.length, queue := [] })
      else (.job job, { w with queue := rest, busy := true })

def finish (w : Worker Job) : Worker Job := { w with busy := false, completed := w.completed + 1 }

/-- The section of `stop` that raises the flag, and how many jobs it finds unfinished. -/
def flag (w : Worker Job) : Nat × Worker Job :=
  let left := w.queue.length + if w.busy then 1 else 0
  (left, { w with stopping := true, cancel := w.cancel || left > 0 })

end Worker

inductive RunThread (Job : Type)
  | none
  | waits
  | runs (job : Job)
  | returned

/-- How far `stop` has come: in `wait_idle`, past it (with what it returned), at the join, back. -/
inductive StopCall
  | notCalled
  | waits
  | waited (idle : Bool)
  | joins (left : Nat)
  | returned (left : Nat)

structure Workers (Job : Type) where
  worker : Worker Job
  thread : RunThread Job := .none
  stop : StopCall := .notCalled

inductive WorkerSection (Job : Type)
  | post (job : Job) (created : Bool)
  | take
  | finish
  | stopBegins
  | stopWaited (timedOut : Bool)
  | stopFlags
  | stopJoins

namespace Workers

def new (capacity : Nat) : Workers Job := { worker := .new capacity }

/-- A section whose thread is elsewhere, or has to wait, changes nothing. -/
def step (s : Workers Job) : WorkerSection Job → Workers Job
  | .post job created =>
      let (accepted, worker) := s.worker.post job created
      { s with worker, thread := if accepted && !s.worker.started then .waits else s.thread }
  | .take =>
      match s.thread with
      | .waits =>
          match s.worker.take with
          | (.waits, _) => s
          | (.returns, worker) => { s with worker, thread := .returned }
          | (.job job, worker) => { s with worker, thread := .runs job }
      | _ => s
  | .finish =>
      match s.thread with
      | .runs _ => { s with worker := s.worker.finish, thread := .waits }
      | _ => s
  | .stopBegins =>
      match s.stop with
      | .notCalled =>
          if !s.worker.started then { s with worker := { s.worker with stopping := true }, stop := .returned 0 }
          else if s.worker.stopping then { s with stop := .returned 0 }
          else { s with stop := .waits }
      | _ => s
  | .stopWaited timedOut =>
      match s.stop with
      | .waits => if s.worker.idle || timedOut then { s with stop := .waited s.worker.idle } else s
      | _ => s
  | .stopFlags =>
      match s.stop with
      | .waited _ =>
          let (left, worker) := s.worker.flag
          { s with worker, stop := .joins left }
      | _ => s
  | .stopJoins =>
      match s.stop, s.thread with
      | .joins left, .returned => { s with stop := .returned left }
      | _, _ => s

/-! ## What a section does to a job -/

def accepts (s : Workers Job) : WorkerSection Job → List Job
  | .post job created => if (s.worker.post job created).1 then [job] else []
  | _ => []

def refuses (s : Workers Job) : WorkerSection Job → List Job
  | .post job created => if (s.worker.post job created).1 then [] else [job]
  | _ => []

def starts (s : Workers Job) : WorkerSection Job → List Job
  | .take =>
      match s.thread, s.worker.take.1 with
      | .waits, .job job => [job]
      | _, _ => []
  | _ => []

def finishes (s : Workers Job) : WorkerSection Job → List Job
  | .finish =>
      match s.thread with
      | .runs job => [job]
      | _ => []
  | _ => []

def clears (s : Workers Job) : WorkerSection Job → List Job
  | .take =>
      match s.thread, s.worker.take.1 with
      | .waits, .returns => s.worker.queue
      | _, _ => []
  | _ => []

end Workers

end Budyk.Rules
