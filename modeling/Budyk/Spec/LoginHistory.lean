import Budyk.Lib.FixedWindow
import Budyk.Web.LoginLimiter
import Mathlib.Logic.Function.Basic

/-! The throttle, said of the failed logins themselves. -/

namespace Budyk.Spec
open Lib Web

inductive LoginRecord where
  | failure (peer : Peer) (now : Nat)
  | success (peer : Peer)
  deriving DecidableEq

/-- The failures in each peer's window, and in the one of all peers. -/
structure LoginWindows where
  peer : Peer → List Nat
  all : List Nat

namespace LoginWindows

def empty : LoginWindows := ⟨fun _ => [], []⟩

def step (width : Nat) (ws : LoginWindows) : LoginRecord → LoginWindows
  | .failure p now =>
      { peer := Function.update ws.peer p (FixedWindow.add width (ws.peer p) now), all := FixedWindow.add width ws.all now }
  | .success p => { ws with peer := Function.update ws.peer p [] }

end LoginWindows

def failures (log : List LoginRecord) : List (Peer × Nat) := log.filterMap fun
  | .failure p now => some (p, now)
  | .success _ => none

def failuresOf (p : Peer) (log : List LoginRecord) : List Nat :=
  ((failures log).filter fun failure => failure.1 = p).map fun failure => failure.2

def recorded (l : LoginLimiter) (a : LoginAttempt) : List LoginRecord :=
  if (l.login a).1 = 0 then
    match a.password with
    | .missing => []
    | .wrong => [.failure a.peer a.now]
    | .right => [.success a.peer]
  else []

def loginLog (l : LoginLimiter) (attempts : List LoginAttempt) : List LoginRecord :=
  reports LoginLimiter.step recorded l attempts

def loginWindows (l : LoginLimiter) (attempts : List LoginAttempt) : LoginWindows :=
  (loginLog l attempts).foldl (LoginWindows.step l.windowSec) LoginWindows.empty

/-- All peers together, in any `windowSec` seconds. -/
def AllBounded (l : LoginLimiter) (attempts : List LoginAttempt) : Prop :=
  ∀ from_, (FixedWindow.within l.windowSec from_ ((failures (loginLog l attempts)).map fun failure => failure.2)).length ≤
    2 * l.globalMax - 1

def WindowBounded (l : LoginLimiter) (attempts : List LoginAttempt) : Prop :=
  ∀ p, ((loginWindows l attempts).peer p).length ≤ l.maxFailures

/-- One peer, in any `windowSec` seconds with no success of its own between. -/
def PeerBounded (l : LoginLimiter) (attempts : List LoginAttempt) : Prop :=
  ∀ p before middle after, loginLog l attempts = before ++ middle ++ after → .success p ∉ middle →
    ∀ from_, (FixedWindow.within l.windowSec from_ (failuresOf p middle)).length ≤ 2 * l.maxFailures - 1

/-- A peer told to wait is refused until then, and let in at the end if no other peer has failed since. -/
def WaitKept (l : LoginLimiter) (attempts : List LoginAttempt) : Prop :=
  ∀ before a middle b after, attempts = before ++ a :: (middle ++ b :: after) → b.peer = a.peer →
    0 < ((l.run before).login a).1 →
    (b.now < a.now + ((l.run before).login a).1 → 0 < ((l.run (before ++ a :: middle)).login b).1) ∧
    (b.now = a.now + ((l.run before).login a).1 → (∀ c ∈ middle, c.peer = a.peer → c.now < b.now) →
      (∀ failure ∈ failures (loginLog ((l.run before).step a) middle), failure.1 = a.peer) →
      ((l.run (before ++ a :: middle)).login b).1 = 0)

/-- Every window that is still open is in the table, with its count. -/
def NoneForgotten (l : LoginLimiter) (attempts : List LoginAttempt) : Prop :=
  ∀ p, ∀ last ∈ attempts.getLast?, ∀ start others, (loginWindows l attempts).peer p = start :: others →
    last.now < start + l.windowSec →
    (l.run attempts).peers.lookup p = some ⟨(start :: others).length, start⟩

def NeverClears (l : LoginLimiter) (attempts : List LoginAttempt) : Prop :=
  Along LoginLimiter.step (fun l a => ¬l.Clears a.now) l attempts

end Budyk.Spec
