import Budyk.Web.Frames

/-! `WebSocketHub` of `web/ws_hub.cpp`. A client is kept with its socket: what each `send` and `recv` on
it will return, what it has taken and given so far, the frames queued to it and those read from it. The
clients the hub has closed are kept too, with the reason. -/

namespace Budyk.Web

/-- What `send_some` comes to, of however many bytes it is asked to send. -/
inductive SendResult where
  | took (n : Nat)
  | failed

inductive RecvResult where
  | bytes (data : Bytes)
  | again
  | hungUp
  | failed

inductive Reason where
  -- The socket failed, or the client is more than `kMaxBacklog` behind
  | sendFailed
  -- A close frame, or bytes that are not a WebSocket frame
  | refused
  | inputOverflow
  -- The peer closed the connection, or it was reset
  | gone
  | session
  | shutDown
  deriving DecidableEq

structure Client where
  fd : Int
  session : String
  inbuf : Bytes
  skip : Nat
  outbuf : Bytes
  sends : List SendResult
  recvs : List RecvResult
  taken : Bytes
  given : Bytes
  queued : List OutFrame
  read : List InFrame

def kMaxBacklog : Nat := 1024 * 1024
def kServiceReadBudget : Nat := 4096
def kMaxInbuf : Nat := 1024

namespace Client

/-- The bytes written, none when the socket failed. A socket with nothing more to say would block. -/
def sendSome (c : Client) (data : Bytes) : Option Nat × Client :=
  match c.sends with
  | [] => (some 0, c)
  | .failed :: sends => (none, { c with sends })
  | .took n :: sends =>
      (some (min n data.length), { c with sends, taken := c.taken ++ data.take (min n data.length) })

-- The loop of `flush_out`; every pass but the last sends at least a byte
def flushLoop : (bound : Nat) → Client → Bool × Client
  | 0, c => (true, c)
  | bound + 1, c =>
      if c.outbuf = [] then (true, c)
      else
        match c.sendSome c.outbuf with
        | (none, c) => (false, c)
        | (some n, c) => if n = 0 then (true, c) else flushLoop bound { c with outbuf := c.outbuf.drop n }

def flushOut (c : Client) : Bool × Client := flushLoop c.outbuf.length c

def keepRest (c : Client) (frame : OutFrame) (sent : Nat) : Bool × Client :=
  let c := { c with outbuf := c.outbuf ++ frame.bytes.drop sent, queued := c.queued ++ [frame] }
  (c.outbuf.length ≤ kMaxBacklog, c)

def queueOut (c : Client) (frame : OutFrame) : Bool × Client :=
  let (flushed, c) := c.flushOut
  if !flushed then (false, c)
  else if c.outbuf = [] then
    match c.sendSome frame.bytes with
    | (none, c) => (false, c)
    | (some sent, c) => c.keepRest frame sent
  else c.keepRest frame 0

/-- A close frame, as far as the socket takes it, unless it would land inside another. -/
def sendClose (c : Client) (status : Bytes) : Client :=
  if c.outbuf = [] then (c.sendSome (wsControlFrame kOpClose status)).2 else c

-- The loop of `consume_frames`; every pass but the last takes a frame's header from the input
def consumeLoop : (bound : Nat) → Client → Option Reason × Client
  | 0, c => (none, c)
  | bound + 1, c =>
      match readFrame c.skip c.inbuf with
      | .wait skip inbuf => (none, { c with skip, inbuf })
      | .refuse inbuf => (some .refused, { c with skip := 0, inbuf })
      | .control opcode payload inbuf =>
          if opcode = kOpClose then
            let c := { c with skip := 0, inbuf }
            (some .refused, c.sendClose (if payload.val.length ≥ 2 then payload.val.take 2 else []))
          else
            let c := { c with skip := 0, inbuf, read := c.read ++ [.control opcode payload] }
            if opcode = kOpPing then
              let (queued, c) := c.queueOut (.pong payload)
              if !queued then (some .sendFailed, c) else consumeLoop bound c
            -- A pong needs no answer.
            else consumeLoop bound c
      | .data opcode len inbuf => consumeLoop bound { c with skip := len, inbuf, read := c.read ++ [.data opcode len] }

def consumeFrames (c : Client) : Option Reason × Client := consumeLoop (c.inbuf.length + 1) c

/-- A `recv` of at most `want` bytes; what it leaves is there for the next. -/
def recv (c : Client) (want : Nat) : RecvResult × Client :=
  match c.recvs with
  | [] => (.again, c)
  | .bytes data :: recvs =>
      let rest := data.drop want
      (.bytes (data.take want),
        { c with recvs := if rest = [] then recvs else .bytes rest :: recvs, given := c.given ++ data.take want })
  | result :: recvs => (result, { c with recvs })

-- The reading loop of `service`; every pass but the last uses up some of the budget
def readLoop : (bound budget : Nat) → Client → Option Reason × Client
  | 0, _, c => (none, c)
  | bound + 1, budget, c =>
      if budget = 0 then (none, c)
      else
        let want := if budget < 512 then budget else 512
        match c.recv want with
        | (.bytes data, c) =>
            if data = [] then (some .gone, c)
            else
              match { c with inbuf := c.inbuf ++ data }.consumeFrames with
              | (some reason, c) => (some reason, c)
              | (none, c) =>
                  if c.inbuf.length > kMaxInbuf then (some .inputOverflow, c)
                  else readLoop bound (budget - data.length) c
        | (.again, c) => (none, c)
        | (_, c) => (some .gone, c)

def service (c : Client) : Option Reason × Client :=
  let (flushed, c) := c.flushOut
  if !flushed then (some .sendFailed, c) else readLoop kServiceReadBudget kServiceReadBudget c

end Client

/-! ## The hub -/

structure WebSocketHub where
  clients : List Client
  closed : List (Client × Reason)

namespace WebSocketHub

def empty : WebSocketHub := ⟨[], []⟩

def forEach (h : WebSocketHub) (f : Client → Option Reason × Client) : WebSocketHub where
  clients := h.clients.filterMap fun c => if (f c).1 = none then some (f c).2 else none
  closed := h.closed ++ h.clients.filterMap fun c => (f c).1.map fun reason => ((f c).2, reason)

def newClient (fd : Int) (session : String) (sends : List SendResult) (recvs : List RecvResult) : Client :=
  ⟨fd, session, [], 0, [], sends, recvs, [], [], [], []⟩

def add (h : WebSocketHub) (c : Client) : WebSocketHub := { h with clients := h.clients ++ [c] }

-- `add` with a first frame, the catch-up frame in its one call.
def addFirst (h : WebSocketHub) (c : Client) (payload : Payload) : WebSocketHub :=
  let first := OutFrame.text payload
  let (flushed, c) := { c with outbuf := first.bytes, queued := [first] }.flushOut
  if !flushed then { h with closed := h.closed ++ [(c, .sendFailed)] } else h.add c

def broadcast (h : WebSocketHub) (payload : Payload) : WebSocketHub :=
  h.forEach fun c =>
    let (queued, c) := c.queueOut (.text payload)
    (if !queued then some .sendFailed else none, c)

def service (h : WebSocketHub) : WebSocketHub := h.forEach Client.service

/-- One wait of `flush_owed` for the client that has the descriptor. -/
def flushOwed (h : WebSocketHub) (fd : Int) : WebSocketHub :=
  let at' := h.clients.findIdx fun c => c.fd = fd
  match h.clients[at']? with
  | none => h
  | some c =>
      let (flushed, c) := c.flushOut
      if !flushed then { clients := h.clients.eraseIdx at', closed := h.closed ++ [(c, .sendFailed)] }
      else { h with clients := h.clients.set at' c }

/-- The second half of `drop_sessions`: `gone` is made from the first without the lock. -/
def dropSessions (h : WebSocketHub) (gone : List (Int × String)) : WebSocketHub :=
  h.forEach fun c =>
    if (c.fd, c.session) ∈ gone then (some .session, c.sendClose [0x03, 0xf0]) else (none, c)

def closeAll (h : WebSocketHub) : WebSocketHub := h.forEach fun c => (some .shutDown, c)

/-! ## Runs: the critical sections, in any order -/

inductive Op where
  | add (fd : Int) (session : String) (sends : List SendResult) (recvs : List RecvResult) (first : Option Payload)
  | broadcast (payload : Payload)
  | service
  | flushOwed (fd : Int)
  | dropSessions (gone : List (Int × String))
  | closeAll

def step (h : WebSocketHub) : Op → WebSocketHub
  | .add fd session sends recvs none => h.add (newClient fd session sends recvs)
  | .add fd session sends recvs (some first) => h.addFirst (newClient fd session sends recvs) first
  | .broadcast payload => h.broadcast payload
  | .service => h.service
  | .flushOwed fd => h.flushOwed fd
  | .dropSessions gone => h.dropSessions gone
  | .closeAll => h.closeAll

def run (h : WebSocketHub) (ops : List Op) : WebSocketHub := ops.foldl step h

end WebSocketHub

end Budyk.Web
