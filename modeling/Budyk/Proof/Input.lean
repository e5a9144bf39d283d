import Budyk.Proof.ClientReader

/-! What the hub reads of a client's bytes does not depend on how they arrive. -/

namespace Budyk.Proof
open Lib Web Spec

def pings (frames : List InFrame) : List ControlPayload := frames.filterMap fun
  | .control opcode payload => if opcode = kOpPing then some payload else none
  | .data _ _ => none

def pongs (frames : List OutFrame) : List ControlPayload := frames.filterMap fun
  | .text _ => none
  | .pong payload => some payload

/-- All that a client has sent is read, as it is in one piece, and every ping is answered. -/
structure ReadSoFar (c : Client) : Prop where
  stream : readClient c.given = (c.read, .waiting c.skip c.inbuf)
  answered : pongs c.queued = pings c.read
  small : c.inbuf.length < 14 + 125

def ReadEnd (c : Client) : Reason → Prop
  | .refused => readClient c.given = (c.read, .stopped ()) ∧ pongs c.queued = pings c.read
  | .sendFailed => c.read <+: (readClient c.given).1 ∧ pongs c.queued <+: pings c.read
  | .inputOverflow => False
  | .gone | .session | .shutDown => ReadSoFar c

structure InStep (c : Client) : Prop where
  stream : readClient c.given = (c.read ++ (clientReader.read c.skip c.inbuf).1, (clientReader.read c.skip c.inbuf).2)
  answered : pongs c.queued = pings c.read

theorem Sends.kept {c c' : Client} {frames : List OutFrame} (sends : Sends c c' frames) :
    c'.given = c.given ∧ c'.read = c.read ∧ c'.skip = c.skip ∧ c'.inbuf = c.inbuf := by
  rw [sends.input]
  exact ⟨rfl, rfl, rfl, rfl⟩

theorem queueOut_inbuf (c : Client) (frame : OutFrame) : (c.queueOut frame).2.inbuf = c.inbuf := by
  obtain sends | ⟨-, sends⟩ := queueOut_sends c frame
  · exact sends.kept.2.2.2
  · exact sends.kept.2.2.2

theorem queueOut_input (c : Client) (frame : OutFrame) :
    (c.queueOut frame).2.given = c.given ∧ (c.queueOut frame).2.recvs = c.recvs := by
  obtain sends | ⟨-, sends⟩ := queueOut_sends c frame
  · rw [sends.input]
    exact ⟨rfl, rfl⟩
  · rw [sends.input]
    exact ⟨rfl, rfl⟩

theorem pongs_append (frames more : List OutFrame) : pongs (frames ++ more) = pongs frames ++ pongs more :=
  List.filterMap_append

theorem pings_append (frames more : List InFrame) : pings (frames ++ more) = pings frames ++ pings more :=
  List.filterMap_append

theorem ReadSoFar.sends {c c' : Client} {frames : List OutFrame} (reads : ReadSoFar c) (sends : Sends c c' frames)
    (quiet : pongs frames = []) : ReadSoFar c' := by
  obtain ⟨given, read, skip, inbuf⟩ := sends.kept
  constructor
  · rw [given, read, skip, inbuf]
    exact reads.stream
  · rw [sends.queued, read, pongs_append, quiet, List.append_nil]
    exact reads.answered
  · rw [inbuf]
    exact reads.small

theorem ReadSoFar.failed {c : Client} (reads : ReadSoFar c) : ReadEnd c .sendFailed := by
  rw [ReadEnd, reads.stream, reads.answered]
  exact ⟨List.prefix_rfl, List.prefix_rfl⟩

theorem ReadSoFar.receive {c : Client} (reads : ReadSoFar c) (data : Bytes) :
    InStep { c with given := c.given ++ data, inbuf := c.inbuf ++ data } := by
  refine ⟨?_, reads.answered⟩
  have stream := reads.stream
  rw [readClient] at stream ⊢
  rw [Reader.read_append, stream]
  rfl

/-! ## The loop of `consume_frames` -/

section Consume
variable {c : Client} {skip : Nat} {inbuf : Bytes}

theorem InStep.waits (inStep : InStep c) (read : readFrame c.skip c.inbuf = .wait skip inbuf) :
    ReadSoFar { c with skip, inbuf } := by
  have next : nextFrame c.skip c.inbuf = .wait skip inbuf := by rw [nextFrame, read]
  have pass := nextFrame_pass c.skip c.inbuf
  refine ⟨?_, inStep.answered, ?_⟩
  · rw [inStep.stream, Reader.read_wait (r := clientReader) next, List.append_nil]
  · rw [next] at pass
    cases pass with
    | skipping less => exact Nat.zero_lt_succ _
    | cut le small => exact small

theorem InStep.stops (inStep : InStep c) (stop : nextFrame c.skip c.inbuf = .stop ()) :
    readClient c.given = (c.read, .stopped ()) ∧ pongs c.queued = pings c.read := by
  refine ⟨?_, inStep.answered⟩
  rw [inStep.stream, Reader.read_stop (r := clientReader) stop, List.append_nil]

theorem InStep.next (inStep : InStep c) {frame : InFrame} (item : nextFrame c.skip c.inbuf = .item frame skip inbuf) :
    readClient c.given =
      (c.read ++ [frame] ++ (clientReader.read skip inbuf).1, (clientReader.read skip inbuf).2) := by
  rw [inStep.stream, Reader.read_item (r := clientReader) item, List.append_assoc]
  rfl

theorem InStep.quiet (inStep : InStep c) {frame : InFrame} (item : nextFrame c.skip c.inbuf = .item frame skip inbuf)
    (quiet : pings [frame] = []) : InStep { c with skip, inbuf, read := c.read ++ [frame] } := by
  refine ⟨inStep.next item, ?_⟩
  rw [pings_append, quiet, List.append_nil]
  exact inStep.answered

theorem InStep.ping (inStep : InStep c) {payload : ControlPayload}
    (item : nextFrame c.skip c.inbuf = .item (.control kOpPing payload) skip inbuf) {d : Client}
    (read : d = { c with skip, inbuf, read := c.read ++ [.control kOpPing payload] }) :
    ReadEnd (d.queueOut (.pong payload)).2 .sendFailed ∧
      ((d.queueOut (.pong payload)).1 = true → InStep (d.queueOut (.pong payload)).2) := by
  have stream := inStep.next item
  have asked : pings d.read = pings c.read ++ [payload] := by
    rw [read, pings_append]
    rfl
  have queued : pongs d.queued = pings c.read := by
    rw [read]
    exact inStep.answered
  have within : d.read <+: (readClient d.given).1 := by
    rw [read]
    simp only [stream]
    exact List.prefix_append _ _
  have settled : readClient d.given = (d.read ++ (clientReader.read d.skip d.inbuf).1, (clientReader.read d.skip d.inbuf).2) := by
    rw [read]
    exact stream
  obtain sends | ⟨failed, sends⟩ := queueOut_sends d (.pong payload)
  · obtain ⟨given, read, skip, inbuf⟩ := sends.kept
    have answered : pongs (d.queueOut (.pong payload)).2.queued = pings (d.queueOut (.pong payload)).2.read := by
      rw [sends.queued, pongs_append, queued, read, asked]
      rfl
    refine ⟨⟨?_, answered ▸ List.prefix_rfl⟩, fun _ => ⟨?_, answered⟩⟩
    · rw [given, read]
      exact within
    · rw [given, read, skip, inbuf]
      exact settled
  · obtain ⟨given, read, skip, inbuf⟩ := sends.kept
    refine ⟨⟨?_, ?_⟩, fun ok => ?_⟩
    · rw [given, read]
      exact within
    · rw [sends.queued, List.append_nil, queued, read, asked]
      exact List.prefix_append _ _
    · rw [failed] at ok
      cases ok

theorem sendClose_same (status : Bytes) :
    c.sendClose status = { c with sends := (c.sendClose status).sends, taken := (c.sendClose status).taken } := by
  unfold Client.sendClose
  split
  · unfold Client.sendSome
    split <;> rfl
  · rfl

end Consume

theorem consumeLoop_reads (bound : Nat) {c : Client} (inStep : InStep c) (enough : c.inbuf.length < bound) :
    Fate ReadSoFar ReadEnd (c.consumeLoop bound) := by
  induction bound generalizing c with
  | zero => cases enough
  | succ bound ih =>
      rw [Client.consumeLoop]
      split
      next skip inbuf read => exact inStep.waits read
      next inbuf read =>
        have stop : nextFrame c.skip c.inbuf = .stop () := by rw [nextFrame, read]
        exact inStep.stops stop
      next opcode payload inbuf read =>
        by_cases close : opcode = kOpClose
        · have stop : nextFrame c.skip c.inbuf = .stop () := by
            rw [nextFrame, read]
            exact if_pos close
          rw [if_pos close]
          simp only
          rw [sendClose_same]
          exact inStep.stops stop
        have item : nextFrame c.skip c.inbuf = .item (.control opcode payload) 0 inbuf := by
          rw [nextFrame, read]
          exact if_neg close
        have less := (nextFrame_item item).1
        rw [if_neg close]
        simp only
        by_cases ping : opcode = kOpPing
        · subst ping
          obtain ⟨failed, answered⟩ := inStep.ping item rfl
          have left := queueOut_inbuf { c with skip := 0, inbuf, read := c.read ++ [.control kOpPing payload] } (.pong payload)
          rw [if_pos rfl]
          generalize Client.queueOut _ _ = result at failed answered left ⊢
          obtain ⟨queued, d⟩ := result
          cases queued with
          | false => exact failed
          | true => exact ih (answered rfl) (by simp only at left; rw [left]; omega)
        · rw [if_neg ping]
          have quiet : pings [.control opcode payload] = [] := by simp [pings, ping]
          exact ih (inStep.quiet item quiet) (by simp only; omega)
      next opcode len inbuf read =>
        have item : nextFrame c.skip c.inbuf = .item (.data opcode len) len inbuf := by rw [nextFrame, read]
        have less := (nextFrame_item item).1
        exact ih (inStep.quiet item rfl) (by simp only; omega)

theorem consumeLoop_bound {bound bound' : Nat} {c : Client} (enough : c.inbuf.length < bound)
    (enough' : c.inbuf.length < bound') : c.consumeLoop bound = c.consumeLoop bound' := by
  induction bound generalizing c bound' with
  | zero => cases enough
  | succ bound ih =>
      cases bound' with
      | zero => cases enough'
      | succ bound' =>
          rw [Client.consumeLoop, Client.consumeLoop]
          split
          next => rfl
          next => rfl
          next opcode payload inbuf read =>
            by_cases close : opcode = kOpClose
            · rw [if_pos close, if_pos close]
            have item : nextFrame c.skip c.inbuf = .item (.control opcode payload) 0 inbuf := by
              rw [nextFrame, read]
              exact if_neg close
            have less := (nextFrame_item item).1
            rw [if_neg close, if_neg close]
            generalize after : ({ c with skip := 0, inbuf, read := c.read ++ [.control opcode payload] } : Client) = d
            have left : d.inbuf = inbuf := by rw [← after]
            have answered := queueOut_inbuf d (.pong payload)
            have same : d.consumeLoop bound = d.consumeLoop bound' := ih (by rw [left]; omega) (by rw [left]; omega)
            have same' : (d.queueOut (.pong payload)).2.consumeLoop bound =
                (d.queueOut (.pong payload)).2.consumeLoop bound' :=
              ih (by rw [answered, left]; omega) (by rw [answered, left]; omega)
            simp only [same, same']
          next opcode len inbuf read =>
            have item : nextFrame c.skip c.inbuf = .item (.data opcode len) len inbuf := by rw [nextFrame, read]
            have less := (nextFrame_item item).1
            exact ih (by simp only; omega) (by simp only; omega)

/-! ## A client's turn, and the hub -/

theorem recv_bytes {c d : Client} {want : Nat} {data : Bytes} (result : c.recv want = (.bytes data, d)) :
    d = { c with recvs := d.recvs, given := c.given ++ data } := by
  unfold Client.recv at result
  split at result <;> cases result
  · rfl
  next unread _ => exact absurd rfl (unread data)

theorem recv_nothing {c d : Client} {want : Nat} {answer : RecvResult} (result : c.recv want = (answer, d))
    (nothing : ∀ data, answer ≠ .bytes data) : d = { c with recvs := d.recvs } := by
  unfold Client.recv at result
  split at result <;> cases result
  · rfl
  · exact absurd rfl (nothing _)
  · rfl

/-- What the `recv`s of a client give before one that gives nothing. -/
def pending : List RecvResult → Bytes
  | .bytes data :: recvs => if data = [] then [] else data ++ pending recvs
  | _ => []

theorem recv_pending {c d : Client} {want : Nat} {data : Bytes} (result : c.recv want = (.bytes data, d))
    (some : data ≠ []) : pending c.recvs = data ++ pending d.recvs ∧ data.length ≤ want := by
  unfold Client.recv at result
  split at result
  · cases result
  next all recvs given =>
    cases result
    have more : all ≠ [] := fun nothing => some (by rw [nothing, List.take_nil])
    refine ⟨?_, List.length_take_le _ _⟩
    rw [given, pending, if_neg more]
    conv_lhs => rw [← List.take_append_drop want all]
    split
    next nothing => rw [nothing, List.append_nil]
    next rest => rw [pending, if_neg rest, List.append_assoc]
  next unread _ =>
    cases result
    exact absurd rfl (unread data)

theorem recv_end {c d : Client} {want : Nat} {answer : RecvResult} (result : c.recv want = (answer, d))
    (positive : 0 < want) (nothing : ∀ data, answer = .bytes data → data = []) : pending c.recvs = [] := by
  unfold Client.recv at result
  split at result
  next none =>
    rw [none, pending]
    intro data recvs same
    cases same
  next all recvs given =>
    cases result
    have taken := nothing _ rfl
    rw [given, pending, if_pos]
    cases all with
    | nil => rfl
    | cons byte all =>
        rw [List.take_cons positive] at taken
        cases taken
  next unread given =>
    rw [given, pending]
    intro data recvs same
    cases same
    exact unread data rfl

theorem consumeLoop_input (bound : Nat) (c : Client) :
    (c.consumeLoop bound).2.given = c.given ∧ (c.consumeLoop bound).2.recvs = c.recvs ∧
      (c.consumeLoop bound).1 ≠ some .gone := by
  induction bound generalizing c with
  | zero => exact ⟨rfl, rfl, by simp [Client.consumeLoop]⟩
  | succ bound ih =>
      rw [Client.consumeLoop]
      split
      next => exact ⟨rfl, rfl, by simp⟩
      next => exact ⟨rfl, rfl, by simp⟩
      next opcode payload inbuf read =>
        by_cases close : opcode = kOpClose
        · rw [if_pos close]
          simp only
          rw [sendClose_same]
          exact ⟨rfl, rfl, by simp⟩
        rw [if_neg close]
        simp only
        by_cases ping : opcode = kOpPing
        · have kept := queueOut_input { c with skip := 0, inbuf, read := c.read ++ [.control opcode payload] }
            (.pong payload)
          rw [if_pos ping]
          generalize Client.queueOut _ _ = result at kept ⊢
          obtain ⟨queued, d⟩ := result
          cases queued with
          | false => exact ⟨kept.1, kept.2, by simp⟩
          | true =>
              obtain ⟨given, recvs, ended⟩ := ih d
              exact ⟨given.trans kept.1, recvs.trans kept.2, ended⟩
        · rw [if_neg ping]
          exact ih _
      next => exact ih _

/-- What a turn reads of the bytes that the `recv`s give: all, up to the budget, unless it ends for another reason. -/
def Takes (budget : Nat) (c : Client) (result : Option Reason × Client) : Prop :=
  ∃ data, result.2.given = c.given ++ data ∧ data <+: (pending c.recvs).take budget ∧
    (result.1 = none ∨ result.1 = some .gone → data = (pending c.recvs).take budget)

theorem Takes.nothing {budget : Nat} {c : Client} {result : Option Reason × Client} (given : result.2.given = c.given)
    (none : pending c.recvs = [] ∨ budget = 0) : Takes budget c result := by
  refine ⟨[], by simp [given], List.nil_prefix, fun _ => ?_⟩
  obtain none | none := none
  · rw [none, List.take_nil]
  · rw [none, List.take_zero]

theorem readLoop_takes (bound budget : Nat) (c : Client) (enough : budget ≤ bound) :
    Takes budget c (c.readLoop bound budget) := by
  induction bound generalizing budget c with
  | zero => exact .nothing rfl (.inr (Nat.le_zero.mp enough))
  | succ bound ih =>
      rw [Client.readLoop]
      by_cases spent : budget = 0
      · rw [if_pos spent]
        exact .nothing rfl (.inr spent)
      rw [if_neg spent]
      simp only
      have positive : 0 < (if budget < 512 then budget else 512) := by split <;> omega
      split
      next data d result =>
        have given : d.given = c.given ++ data := by rw [recv_bytes result]
        by_cases nothing : data = []
        · rw [if_pos nothing]
          refine .nothing (by rw [given, nothing, List.append_nil]) (.inl (recv_end result positive ?_))
          intro data' same
          cases same
          exact nothing
        obtain ⟨before, length⟩ := recv_pending result nothing
        have within : data.length ≤ budget := by split at length <;> omega
        have room : (pending c.recvs).take budget = data ++ (pending d.recvs).take (budget - data.length) := by
          rw [before, List.take_append, List.take_of_length_le within]
        rw [if_neg nothing]
        obtain ⟨sameGiven, sameRecvs, stays⟩ :=
          consumeLoop_input (d.inbuf ++ data).length.succ { d with inbuf := d.inbuf ++ data }
        rw [Client.consumeFrames]
        split
        next reason e consumed =>
          rw [consumed] at sameGiven stays
          refine ⟨data, sameGiven.trans given, ?_, fun reads => ?_⟩
          · rw [room]
            exact List.prefix_append _ _
          · obtain reads | reads := reads
            · cases reads
            · exact absurd reads stays
        next e consumed =>
          rw [consumed] at sameGiven sameRecvs
          split
          · refine ⟨data, sameGiven.trans given, ?_, fun reads => ?_⟩
            · rw [room]
              exact List.prefix_append _ _
            · obtain reads | reads := reads <;> cases reads
          · have some := List.length_pos_iff.mpr nothing
            obtain ⟨more, rest, within, all⟩ := ih (budget - data.length) e (by omega)
            simp only at sameRecvs
            rw [sameRecvs] at within all
            refine ⟨data ++ more, ?_, ?_, fun reads => ?_⟩
            · rw [rest, sameGiven, given, List.append_assoc]
            · rw [room]
              exact (List.prefix_append_right_inj data).mpr within
            · rw [room, all reads]
      next d result =>
        refine .nothing ?_ (.inl (recv_end result positive (by simp)))
        rw [recv_nothing result (by simp)]
      next answer d _ other result =>
        refine .nothing ?_ (.inl (recv_end result positive ?_))
        · rw [recv_nothing result (by assumption)]
        · intro data same
          exact absurd same (by simp_all)

theorem service_takes (c : Client) : Takes kServiceReadBudget c c.service := by
  have given := (flushOut_sends c).kept.1
  have recvs : c.flushOut.2.recvs = c.recvs := by rw [(flushOut_sends c).input]
  rw [Client.service]
  generalize c.flushOut = result at given recvs ⊢
  obtain ⟨ok, d⟩ := result
  cases ok with
  | false =>
      refine ⟨[], by simpa using given, List.nil_prefix, fun reads => ?_⟩
      obtain reads | reads := reads <;> cases reads
  | true =>
      have takes := readLoop_takes kServiceReadBudget kServiceReadBudget d le_rfl
      simp only at given recvs
      rw [Takes, given, recvs] at takes
      exact takes

theorem ReadSoFar.recvs {c d : Client} (reads : ReadSoFar c) (same : d = { c with recvs := d.recvs }) :
    ReadSoFar d := by
  rw [same]
  exact ⟨reads.stream, reads.answered, reads.small⟩

theorem readLoop_reads (bound budget : Nat) {c : Client} (reads : ReadSoFar c) :
    Fate ReadSoFar ReadEnd (c.readLoop bound budget) := by
  induction bound generalizing budget c with
  | zero => exact reads
  | succ bound ih =>
      rw [Client.readLoop]
      split
      · exact reads
      · simp only
        split
        next data d result =>
          have same := recv_bytes result
          split
          next nothing =>
            rw [nothing, List.append_nil] at same
            exact reads.recvs same
          · have inStep : InStep { d with inbuf := d.inbuf ++ data } := by
              rw [same]
              exact (reads.recvs (d := { c with recvs := d.recvs }) rfl).receive data
            have consumed := consumeLoop_reads _ inStep (Nat.lt_succ_self _)
            rw [Client.consumeFrames]
            split
            next reason e result =>
              rw [result] at consumed
              exact consumed
            next e result =>
              rw [result] at consumed
              rw [if_neg]
              · exact ih _ consumed
              · have := consumed.small
                rw [kMaxInbuf]
                omega
        next d result => exact reads.recvs (recv_nothing result (by simp))
        next answer d _ _ result => exact reads.recvs (recv_nothing result (by assumption))

theorem reads_keptByHub : KeptByHub ReadSoFar ReadEnd where
  flush := fun c reads => reads.sends (flushOut_sends c) rfl
  read := fun c reads bound budget => readLoop_reads bound budget reads
  failed := fun c reads => reads.failed
  drop := fun c reads => by
    rw [sendClose_same]
    exact ⟨reads.stream, reads.answered, reads.small⟩
  shutDown := fun c reads => reads

theorem reads_queues (op : WebSocketHub.Op) : Queues ReadSoFar op := by
  cases op with
  | add fd session sends recvs first =>
      cases first with
      | none => exact ⟨Reader.read_wait rfl, rfl, Nat.zero_lt_succ _⟩
      | some first => exact ⟨Reader.read_wait rfl, rfl, Nat.zero_lt_succ _⟩
  | broadcast payload =>
      intro c reads
      obtain sends | ⟨-, sends⟩ := queueOut_sends c (.text payload)
      · exact reads.sends sends rfl
      · exact reads.sends sends rfl
  | service | flushOwed fd | dropSessions gone | closeAll => trivial

theorem ReadSoFar.unbroken {c : Client} (reads : ReadSoFar c) : ¬Broken c.given := by
  rw [← readClient_stopped, reads.stream]
  exact fun stopped => nomatch stopped

theorem ReadEnd.refused_iff {c : Client} {reason : Reason} (ended : ReadEnd c reason) (sent : reason ≠ .sendFailed) :
    reason = .refused ↔ Broken c.given := by
  cases reason with
  | sendFailed => exact absurd rfl sent
  | refused =>
      apply iff_of_true rfl
      rw [← readClient_stopped, ended.1]
  | inputOverflow => cases ended
  | gone | session | shutDown =>
      have reads : ReadSoFar c := ended
      exact iff_of_false nofun reads.unbroken

/-- In every run of the hub, what is read of a client is what its bytes hold read in one piece, however they arrive:
whole frames up to the first that is refused, and the client is dropped for its bytes exactly when one is. A turn reads
all that its socket gives, up to the budget. -/
theorem input_read_as_one_stream (ops : List WebSocketHub.Op) :
    (∀ c ∈ (WebSocketHub.empty.run ops).clients, ReadSoFar c ∧ ¬Broken c.given) ∧
    (∀ c reason, (c, reason) ∈ (WebSocketHub.empty.run ops).closed →
      ReadEnd c reason ∧ (reason ≠ .sendFailed → (reason = .refused ↔ Broken c.given))) ∧
    (∀ (sent : List ClientFrame) (rest : Bytes), (∀ f ∈ sent, f.Accepted) →
      readClient (sent.flatMap ClientFrame.bytes ++ rest) =
        (sent.map ClientFrame.seen ++ (readClient rest).1, (readClient rest).2)) ∧
    (∀ stream : Bytes, (readClient stream).2 = .stopped () ↔ Broken stream) ∧
    (∀ (c : Client) (bound : Nat), c.inbuf.length < bound → c.consumeLoop bound = c.consumeFrames) ∧
    ∀ c : Client, Takes kServiceReadBudget c c.service := by
  have each := reads_keptByHub.run reads_queues ops
  refine ⟨fun c member => ?_, fun c reason member => ?_, fun sent rest accepted => readClient_frames accepted rest,
    readClient_stopped, fun c bound enough => consumeLoop_bound enough (Nat.lt_succ_self _), service_takes⟩
  · exact ⟨each.1 c member, (each.1 c member).unbroken⟩
  · exact ⟨each.2 c reason member, (each.2 c reason member).refused_iff⟩

end Budyk.Proof
