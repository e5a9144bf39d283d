import Budyk.HotBuffer.HotBuffer
import Budyk.Web.WsHub

/-! The collector's tick (`daemon/serve.cpp`) beside one client's upgrade (`daemon/router.cpp`), critical
section by critical section. A step within `hot_mtx` is atomic. The hub's lock is held by the upgrade from
before its snapshot to after the client's registration, and a step of another that needs it waits. -/

namespace Budyk.Daemon
open Web

def kCatchupSamples : Nat := 300

inductive Message (Sample Detail : Type) where
  | tick (s : Sample) (detail : Detail)
  | alerts (payload : Payload)

inductive Joining (Sample : Type) where
  | outside
  | locked
  | snapped (snap : List Sample)
  | done

structure State (Sample Detail : Type) where
  hot : HotBuffer Sample
  latestDetail : Detail
  hub : WebSocketHub
  -- The sample pushed, until `ws.size()` is asked
  pending : Option Sample
  -- `ws.size()` was not 0, and the broadcast is to come.
  sending : Option (Message Sample Detail)
  joining : Joining Sample

inductive Event (Sample Detail : Type) where
  | push (s : Sample) (detail : Detail)
  | reset
  | size
  | alerts (payload : Payload)
  | broadcast
  | lock
  | snapshot
  | register (session : String) (sends : List SendResult) (recvs : List RecvResult)
  -- A critical section of the hub that is not about the client's upgrade or a broadcast
  | other (op : WebSocketHub.Op)

section Step
variable {Sample Detail : Type}

namespace State

def start [Inhabited Sample] (capacity : Nat) (detail : Detail) : State Sample Detail :=
  ⟨.new capacity, detail, .empty, none, none, .outside⟩

def hubFree (d : State Sample Detail) : Bool :=
  match d.joining with
  | .outside | .done => true
  | .locked | .snapped _ => false

def idle (d : State Sample Detail) : Bool := d.pending.isNone && d.sending.isNone

def hubSize (d : State Sample Detail) : Nat := d.hub.clients.length

/-- A descriptor that is open is not given out again. -/
def allows (d : State Sample Detail) (fd : Int) : WebSocketHub.Op → Bool
  | .broadcast _ => false
  | .add other _ _ _ _ =>
      match d.joining with
      | .done => other ≠ fd
      | _ => true
  | _ => true

end State

-- `samples_to_json`, with the detail block or without
variable (samplesToJson : List Sample → Option Detail → Payload)

def Message.payload : Message Sample Detail → Payload
  | .tick s detail => samplesToJson [s] (some detail)
  | .alerts payload => payload

/-- A step of the collector, or of the upgrade of the client with the descriptor `fd`; none when it must wait. -/
def State.step (fd : Int) (d : State Sample Detail) : Event Sample Detail → Option (State Sample Detail)
  | .push s detail =>
      if d.idle then some { d with hot := d.hot.push s, latestDetail := detail, pending := some s } else none
  | .reset => if d.idle then some { d with hot := d.hot.reset } else none
  | .size =>
      match d.pending, d.sending with
      | some s, none =>
          if d.hubFree then
            some { d with pending := none, sending := if d.hubSize > 0 then some (.tick s d.latestDetail) else none }
          else none
      | _, _ => none
  | .alerts payload =>
      if d.sending.isNone && d.hubFree then
        some { d with sending := if d.hubSize > 0 then some (.alerts payload) else none }
      else none
  | .broadcast =>
      match d.sending with
      | some message =>
          if d.hubFree then some { d with hub := d.hub.broadcast (message.payload samplesToJson), sending := none }
          else none
      | none => none
  | .lock =>
      match d.joining with
      | .outside => if fd ∈ d.hub.clients.map Client.fd then none else some { d with joining := .locked }
      | _ => none
  | .snapshot =>
      match d.joining with
      | .locked =>
          let n := if d.hot.size < kCatchupSamples then d.hot.size else kCatchupSamples
          some { d with joining := .snapped (if n > 0 then d.hot.dumpLast n else []) }
      | _ => none
  | .register session sends recvs =>
      match d.joining with
      | .snapped snap => some { d with
          hub := d.hub.addFirst (WebSocketHub.newClient fd session sends recvs) (samplesToJson snap none)
          joining := .done }
      | _ => none
  | .other op => if d.hubFree && d.allows fd op then some { d with hub := d.hub.step op } else none

def State.run (fd : Int) (d : State Sample Detail) (events : List (Event Sample Detail)) :
    Option (State Sample Detail) :=
  events.foldlM (State.step samplesToJson fd) d

end Step

end Budyk.Daemon
