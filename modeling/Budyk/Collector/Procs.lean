import Budyk.Lib.Bisect
import Budyk.Lib.Text
import Mathlib.Data.List.Sort
import Mathlib.Data.Rat.Lemmas
import Mathlib.Logic.Function.Basic

/-! The process tracker of `collector/detail.c`. A rate is the exact value of the double the source computes; of a whole
number that is converted to a double, the double is kept. -/

namespace Budyk.Collector
open Lib

abbrev BUDYK_TOP_EACH : Nat := 10
abbrev BUDYK_MAX_TRACKED_PROCS : Nat := 8192

structure ProcRead where
  pid : Int
  start : UInt64
  cpu : UInt64
  rssBytes : UInt64
  threads : UInt32
  state : UInt8
  name : List UInt8

structure ProcPrev where
  pid : Int
  start : UInt64
  cpu : UInt64

structure Process where
  pid : Int
  name : List UInt8
  state : UInt8
  threads : UInt32
  cpuPercent : Rat
  rssBytes : UInt64
  deriving DecidableEq

/-- A `memset` one. -/
instance : Zero Process := ⟨⟨0, [], 0, 0, 0, 0⟩⟩

/-- The double nearest to a whole number, of two the one with the even mantissa: 53 bits of it are kept. -/
def roundDouble (n : Nat) : Nat :=
  let unit := 2 ^ (n.log2 - 52)
  let down := n / unit
  let left := n % unit
  if unit < 2 * left ∨ (unit = 2 * left ∧ down % 2 = 1) then (down + 1) * unit else down * unit

def byCpu (p : Process) : Rat := p.cpuPercent
def byRss (p : Process) : Rat := (roundDouble p.rssBytes.toNat : Rat)

/-! ## The candidates -/

/-- An array of `BUDYK_TOP_EACH` places, the first `n` of them taken. -/
structure Top where
  slots : List Process
  n : Nat

def Top.held (top : Top) : List Process := top.slots.take top.n

/-- None when a place that is read or written is not in the array. -/
def memmove {α : Type} (slots : List α) (dst src len : Nat) : Option (List α) :=
  if dst + len ≤ slots.length ∧ src + len ≤ slots.length then
    some (slots.take dst ++ (slots.drop src).take len ++ slots.drop (dst + len))
  else none

def store {α : Type} (slots : List α) (i : Nat) (x : α) : Option (List α) :=
  if i < slots.length then some (slots.set i x) else none

def offerAt (key : Process → Rat) (slots : List Process) (p : Process) : Nat → Nat
  | 0 => 0
  | at_ + 1 =>
      match slots[at_]? with
      | some q => if key q < key p then offerAt key slots p at_ else at_ + 1
      | none => at_ + 1

def offer (key : Process → Rat) (top : Top) (p : Process) : Option Top :=
  let at_ := offerAt key top.slots p top.n
  if at_ ≥ BUDYK_TOP_EACH then some top
  else
    let last := if top.n < BUDYK_TOP_EACH then top.n else BUDYK_TOP_EACH - 1
    match memmove top.slots (at_ + 1) at_ (last - at_) with
    | none => none
    | some slots =>
        match store slots at_ p with
        | none => none
        | some slots => some ⟨slots, if top.n < BUDYK_TOP_EACH then top.n + 1 else top.n⟩

/-! ## The tracker -/

/-- `budyk_detail_c`, as far as the tracker uses it; `procTrack procCur` is the previous read. -/
structure ProcTracker where
  procCur : Bool
  procTrack : Bool → List ProcPrev
  procPrevNs : UInt64
  procNowNs : UInt64
  topCpu : Top
  topRss : Top
  procs : List Process

def ProcTracker.new : ProcTracker where
  procCur := false
  procTrack := fun _ => []
  procPrevNs := 0
  procNowNs := 0
  topCpu := ⟨List.replicate BUDYK_TOP_EACH 0, 0⟩
  topRss := ⟨List.replicate BUDYK_TOP_EACH 0, 0⟩
  procs := []

def procsBegin (d : ProcTracker) (nowNs : UInt64) : ProcTracker :=
  { d with
    procNowNs := nowNs
    procTrack := Function.update d.procTrack (!d.procCur) []
    topCpu := { d.topCpu with n := 0 }
    topRss := { d.topRss with n := 0 } }

def notBelow (v : List ProcPrev) (pid : Int) (mid : Nat) : Bool :=
  match v[mid]? with
  | some q => !(q.pid < pid)
  | none => true

def findProc (d : ProcTracker) (pid : Int) (start : UInt64) : Option ProcPrev :=
  let v := d.procTrack d.procCur
  let lo := bisect (notBelow v pid) 0 v.length
  match v[lo]? with
  | some q => if q.pid = pid ∧ q.start = start then some q else none
  | none => none

/-- `budyk_rate` -/
def rate (now prev dns : UInt64) : Rat :=
  if dns = 0 ∨ now < prev then 0 else ((now.toNat - prev.toNat : Nat) : Rat) * 1000000000 / dns.toNat

/-- The process as it is listed. -/
def listedProcess (d : ProcTracker) (r : ProcRead) (cpuPerSec : Rat) : Process where
  pid := r.pid
  name := cString (r.name.take 31)
  state := r.state
  threads := r.threads
  rssBytes := r.rssBytes
  cpuPercent :=
    match findProc d r.pid r.start with
    | none => 0
    | some prev =>
        if 0 < cpuPerSec ∧ d.procNowNs > d.procPrevNs then
          rate r.cpu prev.cpu (d.procNowNs - d.procPrevNs) / cpuPerSec * 100
        else 0

/-- The read being made, with one more process to compare the next one with. -/
def track (d : ProcTracker) (r : ProcRead) : List ProcPrev :=
  let next := d.procTrack (!d.procCur)
  if next.length < BUDYK_MAX_TRACKED_PROCS then next ++ [⟨r.pid, r.start, r.cpu⟩] else next

def procsAdd (d : ProcTracker) (r : ProcRead) (cpuPerSec : Rat) : Option ProcTracker :=
  let p := listedProcess d r cpuPerSec
  match (if 0 < p.cpuPercent then offer byCpu d.topCpu p else some d.topCpu) with
  | none => none
  | some topCpu =>
      match offer byRss d.topRss p with
      | none => none
      | some topRss =>
          some { d with procTrack := Function.update d.procTrack (!d.procCur) (track d r), topCpu, topRss }

def cmpTop (x y : Process) : Int :=
  if x.cpuPercent ≠ y.cpuPercent then if x.cpuPercent < y.cpuPercent then 1 else -1
  else if x.rssBytes ≠ y.rssBytes then if x.rssBytes < y.rssBytes then 1 else -1
  else if x.pid > y.pid then 1 else if x.pid < y.pid then -1 else 0

def inOrder : List ProcPrev → Bool
  | [] => true
  | [_] => true
  | p :: q :: rest => p.pid ≤ q.pid && inOrder (q :: rest)

/-- The processes to list: those of both tops, each once. None when there is no place for them. -/
def unionProcs (topCpu topRss : List Process) : Option (List Process) :=
  let procs := topCpu ++ topRss.filter fun p => !topCpu.any fun q => q.pid = p.pid
  if procs.length ≤ 2 * BUDYK_TOP_EACH then some procs else none

/-- `qsort` leaves a list in order; where its comparison tells all entries apart there is one order. -/
def procsEnd (d : ProcTracker) : Option ProcTracker :=
  let v := d.procTrack (!d.procCur)
  let sorted := if inOrder v then v else v.insertionSort fun p q => p.pid ≤ q.pid
  match unionProcs d.topCpu.held d.topRss.held with
  | none => none
  | some procs =>
      some { d with
        procTrack := Function.update d.procTrack (!d.procCur) sorted
        procCur := !d.procCur
        procPrevNs := d.procNowNs
        procs := procs.insertionSort fun p q => cmpTop p q ≤ 0 }

/-! ## Reads -/

/-- One read: its time, and the processes in the order they are added, each with the unit of its CPU time. -/
structure ProcsRead where
  nowNs : UInt64
  procs : List (ProcRead × Rat)

def addAll : List (ProcRead × Rat) → ProcTracker → Option ProcTracker
  | [], d => some d
  | (r, cpuPerSec) :: rest, d =>
      match procsAdd d r cpuPerSec with
      | none => none
      | some d => addAll rest d

def procsRead (d : ProcTracker) (read : ProcsRead) : Option ProcTracker :=
  match addAll read.procs (procsBegin d read.nowNs) with
  | none => none
  | some d => procsEnd d

def procsRun : ProcTracker → List ProcsRead → Option ProcTracker
  | d, [] => some d
  | d, read :: rest =>
      match procsRead d read with
      | none => none
      | some d => procsRun d rest

end Budyk.Collector
