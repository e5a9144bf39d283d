import Budyk.Lib.Find
import Budyk.Lib.Text

/-! The checks of `exec()` and of `freeze()` (`rules/lua_stdlib.cpp`, `rules/lua_engine.cpp`, `rules/freeze.cpp`), up to
where a command is run or a process signalled. -/

namespace Budyk.Rules
open Lib

abbrev slash : UInt8 := 47

/-! ## exec -/

abbrev kMaxExecArgvBytes : Nat := 64 * 1024

/-- The files a path leads to, at one moment. -/
structure Files where
  realpath : List UInt8 → Option (List UInt8)
  /-- `realpath` gives absolute paths. -/
  absolute : ∀ path resolved, realpath path = some resolved → resolved.head? = some slash

/-- The path `realpath` gives, or without one the path itself. -/
def Files.resolved (files : Files) (path : List UInt8) : List UInt8 := (files.realpath path).getD path

structure ExecAllowlist where
  written : List (List UInt8)
  resolved : List (List UInt8)

def setExecAllowlist (files : Files) (paths : List (List UInt8)) : ExecAllowlist :=
  ⟨paths, paths.map fun p => (files.realpath (cString p)).getD p⟩

/-- The last component: `p.substr(p.find_last_of('/') + 1)`. -/
def base (p : List UInt8) : List UInt8 := p.rtakeWhile (· ≠ slash)

/-- The `contains_traversal` of `exec_impl`: a `/..` counts when its segment ends there, and the search goes on behind
it. -/
def containsTraversal (s : List UInt8) : Bool :=
  match found : find (text "/..") s with
  | none => false
  | some pos =>
      let rest := s.drop (pos + 3)
      rest = [] || rest.head? = some slash || containsTraversal rest
termination_by s.length
decreasing_by
  have within : pos + 3 ≤ s.length := (find_length found).resolve_right (by decide)
  rw [List.length_drop]
  omega

/-- `snprintf` into the `err` of `l_exec`. -/
def execError (message : List UInt8) : List UInt8 := message.take (512 - 1)

def nulError : Nat → List (List UInt8) → Option (List UInt8)
  | _, [] => none
  | i, arg :: args =>
      if 0 ∈ arg then some (execError (text "exec: argv[" ++ decimal (i + 1) ++ text "] holds a NUL byte"))
      else nulError (i + 1) args

def listed (files : Files) (allow : ExecAllowlist) (cmd : List UInt8) : Bool :=
  (allow.resolved.zip allow.written).any fun entry => entry.1 = files.resolved cmd && base entry.2 = base cmd

/-- What `exec_impl` checks of the arguments it was given; none when the command may run. -/
def execRefused (files : Files) (allow : ExecAllowlist) (cmd : List UInt8) (args : List (List UInt8)) : Option (List UInt8) :=
  let argvBytes := ((cmd :: args).map fun arg => arg.length + 1).sum
  match nulError 0 (cmd :: args) with
  | some err => some err
  | none =>
      if argvBytes > kMaxExecArgvBytes then
        some (execError (text "exec: the arguments are " ++ decimal argvBytes ++ text " bytes, over " ++
          decimal kMaxExecArgvBytes))
      else if cmd.head? ≠ some slash then some (execError (text "exec: argv[0] must be an absolute path"))
      else if containsTraversal cmd then some (execError (text "exec: path traversal (..) forbidden in argv[0]"))
      else if allow.resolved ≠ [] ∧ !listed files allow cmd then
        some (execError (text "exec: '" ++ cmd ++ text "' not in allowlist"))
      else none

/-! ## freeze -/

inductive Os
  | linux
  | freebsd
  deriving DecidableEq

def kCommMax : Os → Nat
  | .linux => 15
  | .freebsd => 19

/-- The name of a process in a buffer of `cap` bytes. On Linux it is the first line of `/proc/<pid>/comm`. -/
def procNameOf (os : Os) (cap : Nat) (comm : List UInt8) : Option (List UInt8) :=
  let name := match os with
    | .linux => stripEnd (cString ((fgetsLines cap (comm ++ [newline])).headD []))
    | .freebsd => (cString comm).take (cap - 1)
  if name = [] then none else some name

def nameListed (os : Os) (allow : List (List UInt8)) (name : List UInt8) : Bool :=
  allow.any fun n => n = name ||
    (n.length > kCommMax os && name.length = kCommMax os && n.take (kCommMax os) = name)

structure FreezeCall where
  fnName : List UInt8
  pid : Int

/-- The pid to signal, or what is raised. `own` are budyk's process and its threads; `comm` is the name of the process
with that pid, none when there is none. -/
def freezeAction (os : Os) (enabled : Bool) (allow : List (List UInt8)) (own : Int → Bool) (call : FreezeCall)
    (comm : Option (List UInt8)) : Except (List UInt8) Int :=
  let raise (message : List UInt8) : Except (List UInt8) Int := .error (call.fnName ++ message)
  if !enabled then raise (text " is disabled (enable with --enable-freeze)")
  else if call.pid ≤ 0 ∨ call.pid > 2 ^ 31 - 1 then raise (text ": pid must be a positive integer")
  else if call.pid = 1 ∨ own call.pid then
    raise (text ": refusing pid " ++ decimalInt call.pid ++ text " (" ++
      (if call.pid = 1 then text "init" else text "budyk itself") ++ text ")")
  else if allow = [] then .ok call.pid
  else match comm.bind (procNameOf os 64) with
    | none => raise (text ": cannot resolve process name for pid " ++ decimalInt call.pid)
    | some name =>
        if nameListed os allow name then .ok call.pid
        else raise (text ": process '" ++ name ++ text "' (pid " ++ decimalInt call.pid ++ text ") not in allowlist")

end Budyk.Rules
