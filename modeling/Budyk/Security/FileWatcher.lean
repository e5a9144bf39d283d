import Budyk.Lib.Text
import Budyk.Lib.Mask
import Mathlib.Data.Finset.Basic
import Mathlib.Data.List.AList
import Mathlib.Data.List.Sort

/-! The file watcher of `security/file_watcher.cpp`: the bookkeeping of paths, and its polls over inotify and kqueue.

The kernel's side is what it answers: to each watch asked for, with the watches it has dropped by then, and to each poll. -/

namespace Budyk.Security
open Lib

abbrev Path := List UInt8

abbrev ENOENT : Int := 2
abbrev EBADF : Int := 9
abbrev EBUSY : Int := 16

inductive FileChangeKind
  | modified
  | deleted
  | created
  deriving DecidableEq, Repr

structure FileChangeEvent where
  path : Path
  kind : FileChangeKind
  deriving DecidableEq, Repr

structure FileWatcher where
  fd : Int := -1
  idToPaths : AList (fun _ : Int => List Path) := ∅
  pathToId : AList (fun _ : Path => Int) := ∅
  -- a `std::set`, in its order
  pending : List Path := []
  overflowed : Bool := false

/-- The watcher, how many watches it has asked for, and those the kernel holds for it. -/
structure Watching extends FileWatcher where
  asked : Nat := 0
  live : Finset Int := ∅

/-- The kernel's answer to one `sys_watch`: an id or a negated errno, after it has dropped some watches of its own. -/
structure Answer where
  dropped : Finset Int := ∅
  id : Int

abbrev Kernel := Nat → Path → Answer

variable (kernel : Kernel)

def sysWatch (path : Path) (st : Watching) : Int × Watching :=
  let answer := kernel st.asked path
  let live := st.live \ answer.dropped
  (answer.id, { st with
    asked := st.asked + 1
    live := if answer.id < 0 then live else insert answer.id live })

def sysUnwatch (id : Int) (st : Watching) : Watching := { st with live := st.live.erase id }

/-- A watch made only to ask is let go unless it is some path's. -/
def letGo (wd : Int) (st : Watching) : Watching :=
  if wd ≥ 0 && (st.idToPaths.lookup wd).isNone then sysUnwatch wd st else st

/-! ## Paths -/

structure Batch where
  out : List FileChangeEvent
  seen : List (Path × FileChangeKind) := []
  appended : Nat := 0

def Batch.emit (b : Batch) (path : Path) (kind : FileChangeKind) : Batch :=
  if (path, kind) ∈ b.seen then b
  else { out := b.out ++ [⟨path, kind⟩], seen := (path, kind) :: b.seen, appended := b.appended + 1 }

def insertPending (path : Path) (pending : List Path) : List Path :=
  if path ∈ pending then pending else pending.orderedInsert (· ≤ ·) path

namespace Watching

def bind (path : Path) (id : Int) (st : Watching) : Watching :=
  let paths := (st.idToPaths.lookup id).getD []
  { st with
    pathToId := st.pathToId.insert path id
    idToPaths := st.idToPaths.insert id (if path ∈ paths then paths else paths ++ [path]) }

def unbind (path : Path) (st : Watching) : Watching :=
  match st.pathToId.lookup path with
  | none => st
  | some id =>
      let st := { st with pathToId := st.pathToId.erase path }
      match st.idToPaths.lookup id with
      | none => st
      | some paths =>
          let paths := paths.filter (· ≠ path)
          if paths = [] then sysUnwatch id { st with idToPaths := st.idToPaths.erase id }
          else { st with idToPaths := st.idToPaths.insert id paths }

def lost (path : Path) (st : Watching) : Watching :=
  let st := st.unbind path
  { st with pending := insertPending path st.pending }

def add (path : Path) (st : Watching) : Int × Watching :=
  if st.fd < 0 then (-EBADF, st)
  else
    match st.pathToId.lookup path with
    | some id => (id, st)
    | none =>
        let (id, st) := sysWatch kernel path st
        if id = -ENOENT then (0, { st with pending := insertPending path st.pending })
        else if id < 0 then (id, st)
        else
          let st := st.bind path id
          (id, { st with pending := st.pending.erase path })

def remove (path : Path) (st : Watching) : Watching :=
  unbind path { st with pending := st.pending.erase path }

/-- `fd` is what the kernel gives: a descriptor, or a negated errno. -/
def init (fd : Int) (st : Watching) : Int × Watching :=
  if st.fd ≥ 0 then (-EBUSY, st)
  else if fd < 0 then (fd, { st with fd := -1 })
  else (0, { st with fd })

def shutdown (st : Watching) : Watching :=
  if st.fd < 0 then st
  else
    let st := st.idToPaths.keys.foldl (fun st id => sysUnwatch id st) st
    { st with fd := -1, idToPaths := ∅, pathToId := ∅, pending := [], overflowed := false }

end Watching

structure Polling where
  st : Watching
  batch : Batch

def Polling.retry (p : Polling) (path : Path) : Polling :=
  let (id, st) := sysWatch kernel path p.st
  if id < 0 then { p with st }
  else
    let st := st.bind path id
    { st := { st with pending := st.pending.erase path }, batch := p.batch.emit path .created }

def Polling.retryPending (p : Polling) : Polling := p.st.pending.foldl (Polling.retry kernel) p

def Polling.lose (p : Polling) (path : Path) : Polling :=
  { st := p.st.lost path, batch := p.batch.emit path .deleted }

structure Polled where
  rc : Int
  out : List FileChangeEvent
  st : Watching

def Polling.fails (p : Polling) (errno : Int) : Polled := ⟨-errno, p.batch.out, p.st⟩

def Polling.returns (p : Polling) : Polled := ⟨p.batch.appended, p.batch.out, p.st⟩

/-! ## inotify -/

abbrev IN_ATTRIB : UInt32 := 0x4
abbrev IN_DELETE_SELF : UInt32 := 0x400
abbrev IN_MOVE_SELF : UInt32 := 0x800
abbrev IN_UNMOUNT : UInt32 := 0x2000
abbrev IN_Q_OVERFLOW : UInt32 := 0x4000
abbrev IN_IGNORED : UInt32 := 0x8000

structure InotifyEvent where
  wd : Int
  mask : UInt32

/-- One `read` of the descriptor: the events in the buffer (none at its end), nothing yet, or an error. -/
inductive Read
  | events (events : List InotifyEvent)
  | again
  | fails (errno : Int)

/-- The order an `unordered_map` happens to be walked in. -/
structure Walk where
  order : List (Sigma fun _ : Path => Int) → List (Sigma fun _ : Path => Int)
  perm : ∀ entries, (order entries).Perm entries

/-- What the kernel answers to `poll` (whether there is something to read) and to the reads after it. -/
structure InotifyPoll where
  ready : Except Int Bool
  reads : List Read
  walk : Walk

namespace Polling

/-- Whether the path's watch is off it: the event says so, or the path, asked again, names another file. -/
def off (ev : InotifyEvent) (path : Path) (st : Watching) : Bool × Watching :=
  if meets ev.mask (IN_DELETE_SELF ||| IN_MOVE_SELF ||| IN_UNMOUNT ||| IN_IGNORED) then (true, st)
  else if meets ev.mask IN_ATTRIB then
    let (wd, st) := sysWatch kernel path st
    if wd = ev.wd then (false, st) else (true, letGo wd st)
  else (false, st)

def onPath (ev : InotifyEvent) (p : Polling) (path : Path) : Polling :=
  let (off, st) := off kernel ev path p.st
  if off then lose { p with st } path else { st, batch := p.batch.emit path .modified }

def onEvent (p : Polling × Bool) (ev : InotifyEvent) : Polling × Bool :=
  if meets ev.mask IN_Q_OVERFLOW then (p.1, true)
  else
    match p.1.st.idToPaths.lookup ev.wd with
    | none => p
    | some paths => (paths.foldl (onPath kernel ev) p.1, p.2)

def readAll (p : Polling × Bool) : List Read → Except (Polling × Int) (Polling × Bool)
  | [] => .ok p
  | .again :: _ => .ok p
  | .fails errno :: _ => .error (p.1, errno)
  | .events [] :: _ => .ok p
  | .events events :: rest => readAll (events.foldl (onEvent kernel) p) rest

/-- After an overflow every path is reported, and its watch checked against what it names now. -/
def check (p : Polling) (kv : Sigma fun _ : Path => Int) : Polling :=
  let (wd, st) := sysWatch kernel kv.1 p.st
  if wd = kv.2 then { st, batch := p.batch.emit kv.1 .modified }
  else
    let p := lose { p with st } kv.1
    { p with st := letGo wd p.st }

def checkAll (walk : Walk) (p : Polling) : Polling :=
  let p := { p with st := { p.st with overflowed := true } }
  (walk.order p.st.pathToId.entries).foldl (check kernel) p

end Polling

def pollInotify (poll : InotifyPoll) (out : Option (List FileChangeEvent)) (st : Watching) : Polled :=
  match out with
  | none => ⟨-EBADF, [], st⟩
  | some out =>
      if st.fd < 0 then ⟨-EBADF, out, st⟩
      else
        let p := Polling.retryPending kernel ⟨st, { out }⟩
        match poll.ready with
        | .error errno => p.fails errno
        | .ok ready =>
            match if ready then Polling.readAll kernel (p, false) poll.reads else .ok (p, false) with
            | .error (p, errno) => p.fails errno
            | .ok (p, overflow) =>
                let p := if overflow then p.checkAll kernel poll.walk else p
                (p.retryPending kernel).returns

/-! ## kqueue -/

abbrev NOTE_DELETE : UInt32 := 0x1
abbrev NOTE_RENAME : UInt32 := 0x20
abbrev NOTE_REVOKE : UInt32 := 0x40

structure Kevent where
  ident : Int
  fflags : UInt32

namespace Polling

def onNote (gone : Bool) (p : Polling) (path : Path) : Polling :=
  if gone then p.lose path else { p with batch := p.batch.emit path .modified }

def onKevent (p : Polling) (ev : Kevent) : Polling :=
  match p.st.idToPaths.lookup ev.ident with
  | none => p
  | some paths => paths.foldl (onNote (meets ev.fflags (NOTE_DELETE ||| NOTE_RENAME ||| NOTE_REVOKE))) p

end Polling

/-- `poll`, over kqueue: `events` is what one `kevent` gives, at most 32 of them. -/
def pollKqueue (events : Except Int (List Kevent)) (out : Option (List FileChangeEvent)) (st : Watching) : Polled :=
  match out with
  | none => ⟨-EBADF, [], st⟩
  | some out =>
      if st.fd < 0 then ⟨-EBADF, out, st⟩
      else
        let p := Polling.retryPending kernel ⟨st, { out }⟩
        match events with
        | .error errno => p.fails errno
        | .ok events => ((events.foldl Polling.onKevent p).retryPending kernel).returns

/-! ## Runs -/

/-- A call of the watcher, or the kernel dropping watches between two of them. -/
inductive WatchStep
  | init (fd : Int)
  | add (path : Path)
  | remove (path : Path)
  | inotify (poll : InotifyPoll) (out : Option (List FileChangeEvent))
  | kqueue (events : Except Int (List Kevent)) (out : Option (List FileChangeEvent))
  | shutdown
  | drops (ids : Finset Int)

def Watching.step (st : Watching) : WatchStep → Watching
  | .init fd => (st.init fd).2
  | .add path => (st.add kernel path).2
  | .remove path => st.remove path
  | .inotify poll out => (pollInotify kernel poll out st).st
  | .kqueue events out => (pollKqueue kernel events out st).st
  | .shutdown => st.shutdown
  | .drops ids => { st with live := st.live \ ids }

def Watching.polled (st : Watching) : WatchStep → Option (List FileChangeEvent × Polled)
  | .inotify poll (some out) => some (out, pollInotify kernel poll (some out) st)
  | .kqueue events (some out) => some (out, pollKqueue kernel events (some out) st)
  | _ => none

end Budyk.Security
