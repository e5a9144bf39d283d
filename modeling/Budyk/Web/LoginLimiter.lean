import Mathlib.Data.List.AList

/-! The login throttle (`web/login_limiter.cpp`) and how the router uses it (`daemon/router.cpp`). -/

namespace Budyk.Web

abbrev Peer := List UInt8

structure Entry where
  failures : Nat
  windowStart : Nat
  deriving DecidableEq

def kSweepAt : Nat := 256
def kMaxTracked : Nat := 4096

structure LoginLimiter where
  maxFailures : Nat
  windowSec : Nat
  globalMax : Nat
  peers : AList fun _ : Peer => Entry
  global : Entry

namespace LoginLimiter

def new (maxFailures windowSec globalMax : Int) : LoginLimiter where
  maxFailures := if maxFailures > 0 then maxFailures.toNat else 1
  windowSec := if windowSec > 0 then windowSec.toNat else 1
  globalMax := if globalMax > 0 then globalMax.toNat else 1
  peers := ∅
  global := ⟨0, 0⟩

def expired (l : LoginLimiter) (e : Entry) (now : Nat) : Bool := e.failures = 0 ∨ now ≥ e.windowStart + l.windowSec

def kept (l : LoginLimiter) (now : Nat) : AList fun _ : Peer => Entry :=
  ⟨l.peers.entries.filter fun kv => !l.expired kv.2 now, l.peers.nodupKeys.sublist List.filter_sublist⟩

def sweep (l : LoginLimiter) (now : Nat) : LoginLimiter :=
  if l.peers.entries.length < kSweepAt then l
  else if (l.kept now).entries.length > kMaxTracked then { l with peers := ∅ }
  else { l with peers := l.kept now }

/-- The entry that blocks the peer, and the table, from which its own expired entry is gone. -/
def blocking (l : LoginLimiter) (peer : Peer) (now : Nat) : Option Entry × LoginLimiter :=
  let blocking := if !l.expired l.global now ∧ l.global.failures ≥ l.globalMax then some l.global else none
  match l.peers.lookup peer with
  | none => (blocking, l)
  | some e =>
      if l.expired e now then (blocking, { l with peers := l.peers.erase peer })
      else if e.failures ≥ l.maxFailures then
        match blocking with
        | none => (some e, l)
        | some b => (some (if e.windowStart > b.windowStart then e else b), l)
      else (blocking, l)

def retryAfter (l : LoginLimiter) (peer : Peer) (now : Nat) : Nat × LoginLimiter :=
  match (l.sweep now).blocking peer now with
  | (none, l) => (0, l)
  | (some b, l) =>
      let end_ := b.windowStart + l.windowSec
      (if end_ > now then end_ - now else 1, l)

def bump (l : LoginLimiter) (e : Entry) (now : Nat) : Entry :=
  if l.expired e now then ⟨1, now⟩ else { e with failures := e.failures + 1 }

/-- Whether this failure is the one that blocks the peer, and the table. -/
def recordFailure (l : LoginLimiter) (peer : Peer) (now : Nat) : Bool × LoginLimiter :=
  let e := l.bump ((l.peers.lookup peer).getD ⟨0, 0⟩) now
  (e.failures = l.maxFailures, { l with global := l.bump l.global now, peers := l.peers.insert peer e })

def recordSuccess (l : LoginLimiter) (peer : Peer) : LoginLimiter := { l with peers := l.peers.erase peer }

end LoginLimiter

/-- The password of a login, once it is looked at. -/
inductive Password where
  | missing
  | wrong
  | right
  deriving DecidableEq

structure LoginAttempt where
  peer : Peer
  now : Nat
  password : Password

namespace LoginLimiter

/-- The router's use: the seconds to wait, or 0 and the password is looked at. -/
def login (l : LoginLimiter) (a : LoginAttempt) : Nat × LoginLimiter :=
  match l.retryAfter a.peer a.now with
  | (0, l) =>
      match a.password with
      | .missing => (0, l)
      | .wrong => (0, (l.recordFailure a.peer a.now).2)
      | .right => (0, l.recordSuccess a.peer)
  | refused => refused

def step (l : LoginLimiter) (a : LoginAttempt) : LoginLimiter := (l.login a).2

def run (l : LoginLimiter) (attempts : List LoginAttempt) : LoginLimiter := attempts.foldl step l

def Clears (l : LoginLimiter) (now : Nat) : Prop :=
  kSweepAt ≤ l.peers.entries.length ∧ kMaxTracked < (l.kept now).entries.length

end LoginLimiter

end Budyk.Web
