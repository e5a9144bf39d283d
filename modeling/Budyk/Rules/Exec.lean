import Budyk.Rules.Alert
import Budyk.Rules.Allowlists
import Budyk.Rules.Worker

/-! `exec()` (`rules/lua_stdlib.cpp`): what it reads of its arguments, and where a command that passes the checks goes.
Whether a string reads as a number is Lua's to say. -/

namespace Budyk.Rules
open Lib

/-- What `exec` can tell of a Lua value: of a float the text `%.14g` writes, of a table the values at `1` to its raw
length, and those under strings. -/
inductive LuaArg where
  | nil
  | boolean (b : Bool)
  | integer (n : Int64)
  | float (written : List UInt8)
  | string (s : List UInt8)
  | table (items : List LuaArg) (fields : List (List UInt8 × LuaArg))
  | other

def LuaArg.toBoolean : LuaArg → Bool
  | .nil => false
  | .boolean b => b
  | _ => true

def argvElement : LuaArg → Option (List UInt8)
  | .string s => some s
  | .integer n => some (decimalInt n.toInt)
  | .float written => some (if written.all fun c => c = 45 || isDigit c then written ++ text ".0" else written)
  | _ => none

structure ExecOptions where
  timeoutS : Nat := 30
  wait : Bool := false

def takeTimeout : LuaArg → Option Nat
  | .integer t => if t.toInt < 1 then none else some (if t.toInt < 86400 then t.toInt.toNat else 86400)
  | _ => none

def kBadTimeout : List UInt8 := text "exec: 'timeout' must be a whole number of seconds, 1 or more"

/-- The program and its arguments: there is always a program. -/
structure Argv where
  cmd : List UInt8
  args : List (List UInt8)

def Argv.all (argv : Argv) : List (List UInt8) := argv.cmd :: argv.args

def argvItem (i : Nat) (item : LuaArg) : Except (List UInt8) (List UInt8) :=
  match argvElement item with
  | some arg => .ok arg
  | none => .error (execError (text "exec: argv[" ++ decimal (i + 1) ++ text "] is not a string"))

def argvItems : Nat → List LuaArg → Except (List UInt8) (List (List UInt8))
  | _, [] => .ok []
  | i, item :: items =>
      match argvItem i item with
      | .error err => .error err
      | .ok arg =>
          match argvItems (i + 1) items with
          | .error err => .error err
          | .ok args => .ok (arg :: args)

def readArgv (first : LuaArg) : Except (List UInt8) Argv :=
  match argvElement first, first with
  | some arg, _ => .ok ⟨arg, []⟩
  | none, .table [] _ => .error (execError (text "exec: empty argv table"))
  | none, .table (item :: items) _ =>
      match argvItem 0 item with
      | .error err => .error err
      | .ok cmd =>
          match argvItems 1 items with
          | .error err => .error err
          | .ok args => .ok ⟨cmd, args⟩
  | none, _ => .error (execError (text "exec: expected string or argv table"))

structure ExecJob where
  argv : Argv
  -- for the log
  what : List UInt8
  timeoutS : Nat

structure ExecResult where
  exitStatus : Int
  signal : Int
  timedOut : Bool
  cancelled : Bool
  elapsedSeconds : Rat
  err : Int

inductive ExecOutcome where
  | checked
  | queued (job : ExecJob)
  | queueFull
  | ran (argv : Argv) (timeoutS : Nat) (rc : Int) (res : ExecResult)

/-- What a call runs into: the files, whether the worker's thread can be made, and what becomes of a command run at
once. -/
structure ExecMoment where
  files : Files
  created : Bool
  execCommand : Argv → Nat → Int × ExecResult

/-- The engine, as far as `exec` reads it, and the functions it has returned: `exec` and the arguments of theirs. -/
structure ExecEngine where
  -- there is a Lua state
  live : Bool
  execEnabled : Bool
  loading : Bool
  allow : ExecAllowlist
  workers : Workers ExecJob
  deferred : List (LuaArg × LuaArg)

def ExecEngine.new (capacity : Nat) : ExecEngine := ⟨false, false, false, ⟨[], []⟩, .new capacity, []⟩

section Call
variable (isNumeral : List UInt8 → Bool)

def LuaArg.isNumber : LuaArg → Bool
  | .integer _ => true
  | .float _ => true
  | .string s => isNumeral s
  | _ => false

def readOptions (second : LuaArg) : Except (List UInt8) ExecOptions :=
  if second.isNumber isNumeral then
    match takeTimeout second with
    | none => .error (execError kBadTimeout)
    | some t => .ok { timeoutS := t }
  else
    match second with
    | .table _ fields =>
        let wait := ((fields.lookup (text "wait")).getD .nil).toBoolean
        match (fields.lookup (text "timeout")).getD .nil with
        | .nil => .ok { wait }
        | timeout =>
            match takeTimeout timeout with
            | none => .error (execError kBadTimeout)
            | some t => .ok ⟨t, wait⟩
    | _ => .ok {}

/-- The command on one line. -/
def execLine (argv : Argv) : List UInt8 := headerValue argv.cmd ++ argv.args.flatMap fun arg => 32 :: headerValue arg

namespace ExecEngine
variable (s : ExecEngine)

def execImpl (moment : ExecMoment) (first second : LuaArg) : Except (List UInt8) (ExecOutcome × Workers ExecJob) :=
  match readOptions isNumeral second with
  | .error err => .error err
  | .ok options =>
      match readArgv first with
      | .error err => .error err
      | .ok argv =>
          match execRefused moment.files s.allow argv.cmd argv.args with
          | some err => .error err
          | none =>
              if s.loading then .ok (.checked, s.workers)
              else if !options.wait then
                let job : ExecJob := ⟨argv, execLine argv, options.timeoutS⟩
                let (queued, _) := s.workers.worker.post job moment.created
                .ok (if queued then .queued job else .queueFull, s.workers.step (.post job moment.created))
              else
                -- the tick waits
                let timeoutS := if options.timeoutS > 60 then 60 else options.timeoutS
                let (rc, res) := moment.execCommand argv timeoutS
                .ok (.ran argv timeoutS rc res, s.workers)

/-- What `exec` did or raised, and the engine afterwards. -/
def lExec (moment : ExecMoment) (first second : LuaArg) : Except (List UInt8) ExecOutcome × ExecEngine :=
  if !s.execEnabled then
    (.error (text "exec is disabled (enable with --enable-exec or rules.exec.enabled: true)"), s)
  else
    match s.execImpl isNumeral moment first second with
    | .error err => (.error err, s)
    | .ok (.checked, workers) => (.ok .checked, { s with workers, deferred := s.deferred ++ [(first, second)] })
    | .ok (outcome, workers) => (.ok outcome, { s with workers })

end ExecEngine

/-! The calls of a run, in the order they come in: the rules file's while it loads, those of a `when` or an action
otherwise. -/

inductive ExecEvent where
  | init (enableExec made : Bool)
  | shutdown
  | setExecAllowlist (files : Files) (paths : List (List UInt8))
  | loadBegins
  | loadEnds
  | exec (moment : ExecMoment) (first second : LuaArg)
  -- a function that `exec` returned is called
  | deferredExec (moment : ExecMoment) (i : Nat)
  | worker (step : WorkerSection ExecJob)

namespace ExecEngine
variable (s : ExecEngine)

/-- The call of `l_exec` that the event makes. -/
def call : ExecEvent → Option (ExecMoment × LuaArg × LuaArg)
  | .exec moment first second => if s.live then some (moment, first, second) else none
  | .deferredExec moment i => s.deferred[i]?.map fun kept => (moment, kept)
  | _ => none

def step (e : ExecEvent) : ExecEngine :=
  match s.call e with
  | some (moment, first, second) => (s.lExec isNumeral moment first second).2
  | none =>
      match e with
      | .init execEnabled made => if s.live then s else { s with execEnabled, live := made }
      | .shutdown => { s with live := false, deferred := [] }
      | .setExecAllowlist files paths => { s with allow := Rules.setExecAllowlist files paths }
      | .loadBegins => { s with loading := s.live }
      | .loadEnds => { s with loading := false }
      -- nothing else posts
      | .worker (.post _ _) => s
      | .worker step => { s with workers := s.workers.step step }
      | _ => s

/-- The job the event puts in the queue. -/
def queues (e : ExecEvent) : List ExecJob :=
  match s.call e with
  | some (moment, first, second) =>
      match (s.lExec isNumeral moment first second).1 with
      | .ok (.queued job) => [job]
      | _ => []
  | none => []

/-- The commands that reach the queue or `exec_command`, each with the files it meets. -/
def reached (e : ExecEvent) : List (Files × Argv) :=
  match s.call e with
  | some (moment, first, second) =>
      match (s.lExec isNumeral moment first second).1 with
      | .ok (.queued job) => [(moment.files, job.argv)]
      | .ok (.ran argv _ _ _) => [(moment.files, argv)]
      | _ => []
  | none => []

/-- The job whose command the worker's thread hands to `exec_command`. -/
def starts : ExecEvent → List ExecJob
  | .worker step => s.workers.starts step
  | _ => []

end ExecEngine
end Call

end Budyk.Rules
