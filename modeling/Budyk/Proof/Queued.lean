import Mathlib.Data.List.Induction
import Budyk.Proof.Input

/-! Which frames are queued to a client: one for every operation that asks for one, from its `add` on. -/

namespace Budyk.Proof
open Lib Web Spec

/-- What an operation asks the hub to send to a client it reads these frames of. -/
def toQueue (op : WebSocketHub.Op) (read : List InFrame) : List OutFrame :=
  match op with
  | .broadcast payload => [.text payload]
  | .service => (pings read).map .pong
  | .add .. | .flushOwed _ | .dropSessions _ | .closeAll => []

/-- What was queued, or all but the frame that the socket failed on. -/
def AllBut (reason : Reason) (frames queued : List OutFrame) : Prop :=
  frames = queued ∨ reason = .sendFailed ∧ ∃ last, frames = queued ++ [last]

/-- At an operation a client is read `more` of, and is queued what it asks for, as far as `kept` says. -/
structure ClientTurn (kept : List OutFrame → List OutFrame → Prop) (op : WebSocketHub.Op) (c c' : Client)
    (more : List InFrame) : Prop where
  fd : c'.fd = c.fd
  session : c'.session = c.session
  reads : op = .service ∨ more = []
  read : c'.read = c.read ++ more
  queued : kept (c.queued ++ toQueue op more) c'.queued

namespace Sends
variable {c c' : Client} {frames : List OutFrame}

theorem fd (sends : Sends c c' frames) : c'.fd = c.fd := by rw [sends.input]

theorem session (sends : Sends c c' frames) : c'.session = c.session := by rw [sends.input]

theorem read (sends : Sends c c' frames) : c'.read = c.read := by rw [sends.input]

end Sends

section Turn
variable {op : WebSocketHub.Op} {kept : List OutFrame → List OutFrame → Prop} {c d e : Client} {more : List InFrame}

theorem ClientTurn.to (turn : ClientTurn Eq op c d more) (reason : Reason) : ClientTurn (AllBut reason) op c d more :=
  ⟨turn.fd, turn.session, turn.reads, turn.read, .inl turn.queued⟩

theorem ClientTurn.quiet (nothing : toQueue op [] = []) (fd : d.fd = c.fd) (session : d.session = c.session)
    (read : d.read = c.read) (queued : d.queued = c.queued) : ClientTurn Eq op c d [] :=
  ⟨fd, session, .inr rfl, by rw [read, List.append_nil], by rw [nothing, queued, List.append_nil]⟩

theorem ClientTurn.sends (nothing : toQueue op [] = []) (sends : Sends c d []) : ClientTurn Eq op c d [] :=
  .quiet nothing sends.fd sends.session sends.read (by rw [sends.queued, List.append_nil])

theorem ClientTurn.trans {others : List InFrame} (first : ClientTurn Eq .service c d more)
    (second : ClientTurn kept .service d e others) : ClientTurn kept .service c e (more ++ others) where
  fd := second.fd.trans first.fd
  session := second.session.trans first.session
  reads := .inl rfl
  read := by rw [second.read, first.read, List.append_assoc]
  queued := by
    have queued := second.queued
    rwa [← first.queued, List.append_assoc, toQueue, toQueue, ← List.map_append, ← pings_append] at queued

/-- The frame that the operation asks for is queued, or the socket fails on it. -/
theorem queueOut_turn (op : WebSocketHub.Op) (c d : Client) (more : List InFrame) (frame : OutFrame)
    (asks : toQueue op more = [frame]) (fd : d.fd = c.fd) (session : d.session = c.session)
    (reads : op = .service ∨ more = []) (read : d.read = c.read ++ more) (queued : d.queued = c.queued) :
    ClientTurn (AllBut .sendFailed) op c (d.queueOut frame).2 more ∧
      ((d.queueOut frame).1 = true → ClientTurn Eq op c (d.queueOut frame).2 more) := by
  obtain sends | ⟨failed, sends⟩ := queueOut_sends d frame
  · have turn : ClientTurn Eq op c (d.queueOut frame).2 more :=
      ⟨sends.fd.trans fd, sends.session.trans session, reads, sends.read.trans read, by rw [asks, sends.queued, queued]⟩
    exact ⟨turn.to _, fun _ => turn⟩
  · refine ⟨⟨sends.fd.trans fd, sends.session.trans session, reads, sends.read.trans read, .inr ⟨rfl, frame, ?_⟩⟩,
      fun ok => ?_⟩
    · rw [asks, sends.queued, queued, List.append_nil]
    · rw [failed] at ok
      cases ok

end Turn

/-! ## What `service` reads -/

def Served (c c' : Client) : Prop := ∃ more, ClientTurn Eq .service c c' more

def ServedTo (c c' : Client) (reason : Reason) : Prop := ∃ more, ClientTurn (AllBut reason) .service c c' more

theorem Served.quiet {c d : Client} (fd : d.fd = c.fd) (session : d.session = c.session) (read : d.read = c.read)
    (queued : d.queued = c.queued) : Served c d :=
  ⟨[], .quiet rfl fd session read queued⟩

theorem ServedTo.quiet {c d : Client} {reason : Reason} (fd : d.fd = c.fd) (session : d.session = c.session)
    (read : d.read = c.read) (queued : d.queued = c.queued) : ServedTo c d reason :=
  ⟨[], ClientTurn.to (.quiet rfl fd session read queued) reason⟩

theorem ClientTurn.reading (c : Client) (skip : Nat) (inbuf : Bytes) {frame : InFrame}
    (quiet : toQueue .service [frame] = []) :
    ClientTurn Eq .service c { c with skip, inbuf, read := c.read ++ [frame] } [frame] :=
  ⟨rfl, rfl, .inl rfl, rfl, by rw [quiet, List.append_nil]⟩

theorem Fate.trans {c d : Client} {more : List InFrame} (first : ClientTurn Eq .service c d more)
    {result : Option Reason × Client} (fate : Fate (Served d) (ServedTo d) result) :
    Fate (Served c) (ServedTo c) result := by
  obtain ⟨reason | reason, e⟩ := result
  · obtain ⟨others, second⟩ := fate
    exact ⟨_, first.trans second⟩
  · obtain ⟨others, second⟩ := fate
    exact ⟨_, first.trans second⟩

theorem consumeLoop_serves (bound : Nat) (c : Client) : Fate (Served c) (ServedTo c) (c.consumeLoop bound) := by
  induction bound generalizing c with
  | zero => exact Served.quiet rfl rfl rfl rfl
  | succ bound ih =>
      rw [Client.consumeLoop]
      split
      next skip inbuf _ => exact Served.quiet rfl rfl rfl rfl
      next inbuf _ => exact ServedTo.quiet rfl rfl rfl rfl
      next opcode payload inbuf _ =>
        by_cases close : opcode = kOpClose
        · rw [if_pos close]
          simp only
          rw [sendClose_same]
          exact ServedTo.quiet rfl rfl rfl rfl
        rw [if_neg close]
        simp only
        by_cases ping : opcode = kOpPing
        · subst ping
          have turn := queueOut_turn .service c { c with skip := 0, inbuf, read := c.read ++ [.control kOpPing payload] }
            [.control kOpPing payload] (.pong payload) rfl rfl rfl (.inl rfl) rfl rfl
          rw [if_pos rfl]
          generalize Client.queueOut _ _ = result at turn ⊢
          obtain ⟨queued, d⟩ := result
          cases queued with
          | false => exact ⟨_, turn.1⟩
          | true => exact (ih d).trans (turn.2 rfl)
        · rw [if_neg ping]
          have quiet : toQueue .service [.control opcode payload] = [] := by simp [toQueue, pings, ping]
          exact (ih _).trans (.reading c 0 inbuf quiet)
      next opcode len inbuf _ => exact (ih _).trans (.reading c len inbuf rfl)

theorem readLoop_serves (bound budget : Nat) (c : Client) :
    Fate (Served c) (ServedTo c) (c.readLoop bound budget) := by
  induction bound generalizing budget c with
  | zero => exact Served.quiet rfl rfl rfl rfl
  | succ bound ih =>
      rw [Client.readLoop]
      split
      · exact Served.quiet rfl rfl rfl rfl
      · simp only
        split
        next data d result =>
          have same := recv_bytes result
          have received : ClientTurn Eq .service c { d with inbuf := d.inbuf ++ data } [] := by
            rw [same]
            exact .quiet rfl rfl rfl rfl rfl
          split
          · rw [same]
            exact ServedTo.quiet rfl rfl rfl rfl
          · have consumed := consumeLoop_serves (d.inbuf ++ data).length.succ { d with inbuf := d.inbuf ++ data }
            rw [Client.consumeFrames]
            split
            next reason e result =>
              rw [result] at consumed
              exact consumed.trans received
            next e result =>
              rw [result] at consumed
              obtain ⟨more, consumed⟩ := consumed
              split
              · exact ⟨_, (received.trans consumed).to .inputOverflow⟩
              · exact (ih _ e).trans (received.trans consumed)
        next d result =>
          rw [recv_nothing result (by simp)]
          exact Served.quiet rfl rfl rfl rfl
        next answer d _ _ result =>
          rw [recv_nothing result (by assumption)]
          exact ServedTo.quiet rfl rfl rfl rfl

theorem service_serves (c : Client) : Fate (Served c) (ServedTo c) c.service := by
  have flushed : ClientTurn Eq .service c c.flushOut.2 [] := .sends rfl (flushOut_sends c)
  rw [Client.service]
  generalize c.flushOut = result at flushed ⊢
  obtain ⟨ok, d⟩ := result
  cases ok with
  | false => exact ⟨[], flushed.to .sendFailed⟩
  | true => exact (readLoop_serves _ _ d).trans flushed

/-! ## A step of the hub -/

/-- The client that an `add` makes. -/
def Added (op : WebSocketHub.Op) (c : Client) : Prop :=
  ∃ sends recvs first, op = .add c.fd c.session sends recvs first ∧ c.read = [] ∧
    c.queued = first.toList.map .text

section Step
variable (h : WebSocketHub) (op : WebSocketHub.Op)

def StepTo (c' : Client) : Prop := (∃ c ∈ h.clients, ∃ more, ClientTurn Eq op c c' more) ∨ Added op c'

def StepEnds (c' : Client) (reason : Reason) : Prop :=
  (c', reason) ∈ h.closed ∨ (∃ c ∈ h.clients, ∃ more, ClientTurn (AllBut reason) op c c' more) ∨ Added op c'

variable {h op}

theorem before_step (h : WebSocketHub) (op : WebSocketHub.Op) :
    Each (· ∈ h.clients) (StepEnds h op) h :=
  ⟨fun _ member => member, fun _ _ member => .inl member⟩

theorem StepEnds.quiet {c d : Client} {reason : Reason} (nothing : toQueue op [] = []) (member : c ∈ h.clients)
    (fd : d.fd = c.fd) (session : d.session = c.session) (read : d.read = c.read) (queued : d.queued = c.queued) :
    StepEnds h op d reason :=
  .inr (.inl ⟨c, member, [], ClientTurn.to (.quiet nothing fd session read queued) reason⟩)

theorem StepTo.same {c : Client} (nothing : toQueue op [] = []) (member : c ∈ h.clients) : StepTo h op c :=
  .inl ⟨c, member, [], .quiet nothing rfl rfl rfl rfl⟩

end Step

section Steps
variable (h : WebSocketHub)

theorem step_add (fd : Int) (session : String) (sends : List SendResult) (recvs : List RecvResult)
    (first : Option Payload) :
    let op := WebSocketHub.Op.add fd session sends recvs first
    Each (StepTo h op) (StepEnds h op) (h.step op) := by
  intro op
  have before : Each (StepTo h op) (StepEnds h op) h := (before_step h op).imp fun c => .same rfl
  cases first with
  | none => exact before.add (.inr ⟨sends, recvs, none, rfl, rfl, rfl⟩)
  | some first =>
      have flushed := flushOut_sends { WebSocketHub.newClient fd session sends recvs with
        outbuf := (OutFrame.text first).bytes, queued := [.text first] }
      change Each _ _ (h.addFirst _ first)
      rw [WebSocketHub.addFirst]
      generalize Client.flushOut _ = result at flushed ⊢
      obtain ⟨ok, d⟩ := result
      have added : Added op d := by
        refine ⟨sends, recvs, some first, ?_, flushed.read, flushed.queued⟩
        rw [flushed.fd, flushed.session]
        rfl
      cases ok with
      | false => exact before.close (.inr (.inr added))
      | true => exact before.add (.inr added)

theorem step_broadcast (payload : Payload) :
    let op := WebSocketHub.Op.broadcast payload
    Each (StepTo h op) (StepEnds h op) (h.step op) := by
  intro op
  have turn (c : Client) :=
    queueOut_turn op c c [] (.text payload) rfl rfl rfl (.inr rfl) (List.append_nil _).symm rfl
  apply (before_step h op).broadcast
  · exact fun c member ok => .inl ⟨c, member, [], (turn c).2 ok⟩
  · exact fun c member _ => .inr (.inl ⟨c, member, [], (turn c).1⟩)

theorem step_service : Each (StepTo h .service) (StepEnds h .service) (h.step .service) := by
  refine (before_step h .service).forEach fun c member => ?_
  have fate := service_serves c
  generalize c.service = result at fate ⊢
  obtain ⟨reason | reason, d⟩ := result
  · obtain ⟨more, turn⟩ := fate
    exact .inl ⟨c, member, more, turn⟩
  · obtain ⟨more, turn⟩ := fate
    exact .inr (.inl ⟨c, member, more, turn⟩)

theorem step_flushOwed (fd : Int) :
    Each (StepTo h (.flushOwed fd)) (StepEnds h (.flushOwed fd)) (h.step (.flushOwed fd)) := by
  have before : Each (StepTo h (.flushOwed fd)) (StepEnds h (.flushOwed fd)) h :=
    (before_step h (.flushOwed fd)).imp fun c => .same rfl
  rw [WebSocketHub.step, WebSocketHub.flushOwed]
  split
  · exact before
  next c found =>
    have member := List.mem_of_getElem? found
    have turn : ClientTurn Eq (.flushOwed fd) c c.flushOut.2 [] := .sends rfl (flushOut_sends c)
    generalize c.flushOut = result at turn ⊢
    obtain ⟨ok, d⟩ := result
    cases ok with
    | false =>
        exact Each.close (h := ⟨h.clients.eraseIdx _, h.closed⟩)
          ⟨fun e still => before.1 e (List.mem_of_mem_eraseIdx still), before.2⟩
          (.inr (.inl ⟨c, member, [], turn.to .sendFailed⟩))
    | true =>
        refine ⟨fun e still => ?_, before.2⟩
        obtain still | rfl := List.mem_or_eq_of_mem_set still
        · exact before.1 e still
        · exact .inl ⟨c, member, [], turn⟩

theorem step_turns (op : WebSocketHub.Op) : Each (StepTo h op) (StepEnds h op) (h.step op) := by
  cases op with
  | add fd session sends recvs first => exact step_add h fd session sends recvs first
  | broadcast payload => exact step_broadcast h payload
  | service => exact step_service h
  | flushOwed fd => exact step_flushOwed h fd
  | dropSessions gone =>
      refine (before_step h _).forEach fun c member => ?_
      split
      · rw [sendClose_same]
        exact StepEnds.quiet rfl member rfl rfl rfl rfl
      · exact .same rfl member
  | closeAll =>
      exact (before_step h _).forEach fun c member => StepEnds.quiet rfl member rfl rfl rfl rfl

end Steps

/-! ## Runs -/

/-- What a client was asked to be sent: its first frame, then what every operation since its `add` asked for. `after`
are those operations, each with the frames that the client was read of at it. -/
def queuedSince (first : Option Payload) (after : List (WebSocketHub.Op × List InFrame)) : List OutFrame :=
  first.toList.map .text ++ after.flatMap fun turn => toQueue turn.1 turn.2

def AskedFor (ops : List WebSocketHub.Op) (c : Client) (frames : List OutFrame) : Prop :=
  ∃ before sends recvs first after,
    ops = before ++ .add c.fd c.session sends recvs first :: after.map Prod.fst ∧
    (∀ turn ∈ after, turn.1 = .service ∨ turn.2 = []) ∧
    c.read = after.flatMap Prod.snd ∧ frames = queuedSince first after

def AskedUntilClosed (ops : List WebSocketHub.Op) (c : Client) (reason : Reason) : Prop :=
  ∃ frames, (∃ now, now <+: ops ∧ AskedFor now c frames) ∧ AllBut reason frames c.queued

theorem AskedFor.turn {ops : List WebSocketHub.Op} {op : WebSocketHub.Op} {kept : List OutFrame → List OutFrame → Prop}
    {c c' : Client} {more : List InFrame} (asked : AskedFor ops c c.queued) (turn : ClientTurn kept op c c' more) :
    AskedFor (ops ++ [op]) c' (c.queued ++ toQueue op more) := by
  obtain ⟨before, sends, recvs, first, after, rfl, quiet, earlier, frames⟩ := asked
  refine ⟨before, sends, recvs, first, after ++ [(op, more)], ?_, ?_, ?_, ?_⟩
  · rw [turn.fd, turn.session]
    simp
  · intro other member
    obtain member | member := List.mem_append.mp member
    · exact quiet other member
    · cases List.mem_singleton.mp member
      exact turn.reads
  · rw [turn.read, earlier]
    simp
  · rw [frames, queuedSince, queuedSince]
    simp

theorem Added.asked {op : WebSocketHub.Op} {c : Client} (added : Added op c) (ops : List WebSocketHub.Op) :
    AskedFor (ops ++ [op]) c c.queued := by
  obtain ⟨sends, recvs, first, rfl, read, queued⟩ := added
  exact ⟨ops, sends, recvs, first, [], rfl, by simp, read, by simp [queued, queuedSince]⟩

theorem run_asks (ops : List WebSocketHub.Op) :
    Each (fun c => AskedFor ops c c.queued) (AskedUntilClosed ops) (WebSocketHub.empty.run ops) := by
  induction ops using List.reverseRecOn with
  | nil => exact ⟨by simp [WebSocketHub.run, WebSocketHub.empty], by simp [WebSocketHub.run, WebSocketHub.empty]⟩
  | append_singleton ops op ih =>
      rw [WebSocketHub.run, List.foldl_append]
      have turns := step_turns (WebSocketHub.empty.run ops) op
      refine ⟨fun c' member => ?_, fun c' reason member => ?_⟩
      · obtain ⟨c, member, more, turn⟩ | added := turns.1 c' member
        · rw [← turn.queued]
          exact (ih.1 c member).turn turn
        · exact added.asked ops
      · obtain closed | ⟨c, member, more, turn⟩ | added := turns.2 c' reason member
        · obtain ⟨frames, ⟨now, earlier, asked⟩, sent⟩ := ih.2 c' reason closed
          exact ⟨frames, ⟨now, earlier.trans (List.prefix_append _ _), asked⟩, sent⟩
        · exact ⟨_, ⟨_, List.prefix_rfl, (ih.1 c member).turn turn⟩, turn.queued⟩
        · exact ⟨_, ⟨_, List.prefix_rfl, added.asked ops⟩, .inl rfl⟩

/-- In every run of the hub, what a client's socket has taken and what it is owed are the frames queued to it, whole
and in order: one for each frame that the operations since its `add` asked for, in their order, but for the one its
socket failed on. The peer reads them as they were queued. -/
theorem output_is_whole_frames (ops : List WebSocketHub.Op) :
    (∀ c ∈ (WebSocketHub.empty.run ops).clients, Whole c ∧ AskedFor ops c c.queued) ∧
    (∀ c reason, (c, reason) ∈ (WebSocketHub.empty.run ops).closed →
      Ended c reason ∧ AskedUntilClosed ops c reason) ∧
    ∀ frames : List OutFrame, parseServer (frames.flatMap OutFrame.bytes) =
      (frames.map fun frame => (frame.opcode, frame.payload), []) := by
  have whole := whole_keptByOutput.keptByHub.run whole_queues ops
  have asks := run_asks ops
  exact ⟨fun c member => ⟨whole.1 c member, asks.1 c member⟩,
    fun c reason member => ⟨whole.2 c reason member, asks.2 c reason member⟩, parseServer_flatMap⟩

/-- Two clients: the first takes its frames in parts and then fails, the second takes nothing and is owed all of it. -/
def partialSends : List WebSocketHub.Op :=
  [.add 5 "a" [.took 3, .took 0, .took 1, .took 2, .took 1, .took 0, .took 1, .took 0, .took 9, .failed]
      [.bytes [0x89, 0x81, 1, 2, 3, 4, 0x40]] (some ⟨[104, 105], by decide⟩),
    .add 6 "b" [] [] none, .broadcast ⟨[111, 107], by decide⟩, .service, .flushOwed 5, .broadcast ⟨[33], by decide⟩]

def sentFrames (c : Client) : List (UInt8 × Bytes) := c.queued.map fun frame => (frame.opcode, frame.payload)

theorem output_is_whole_frames_partial :
    (∀ c ∈ (WebSocketHub.empty.run partialSends).clients, Whole c ∧ AskedFor partialSends c c.queued) ∧
    (∀ c reason, (c, reason) ∈ (WebSocketHub.empty.run partialSends).closed →
      Ended c reason ∧ AskedUntilClosed partialSends c reason) ∧
    (WebSocketHub.empty.run partialSends).clients.map (fun c => (c.fd, sentFrames c, c.taken)) =
      [(6, [(1, [111, 107]), (1, [33])], [])] ∧
    (WebSocketHub.empty.run partialSends).closed.map (fun ended => (ended.1.fd, sentFrames ended.1, ended.2)) =
      [(5, [(1, [104, 105]), (1, [111, 107]), (10, [0x41])], .sendFailed)] ∧
    (WebSocketHub.empty.run partialSends).closed.map (fun ended => (ended.1.taken, ended.1.outbuf)) =
      [([0x81, 2, 104, 105, 0x81, 2, 111, 107, 0x8A, 1, 0x41], [])] :=
  have whole := output_is_whole_frames partialSends
  ⟨whole.1, whole.2.1, by decide +kernel, by decide +kernel, by decide +kernel⟩

end Budyk.Proof
