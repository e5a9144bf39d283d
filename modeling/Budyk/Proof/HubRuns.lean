import Mathlib.Data.List.Basic
import Budyk.Web.WsHub

/-! Runs of the hub, client by client. -/

namespace Budyk.Proof
open Web

/-- The client has been sent `frames`, or is owed them, after what it had before. -/
structure Sends (c c' : Client) (frames : List OutFrame) : Prop where
  queued : c'.queued = c.queued ++ frames
  stream : c'.taken ++ c'.outbuf = c.taken ++ c.outbuf ++ frames.flatMap OutFrame.bytes
  input : c' = { c with outbuf := c'.outbuf, sends := c'.sends, taken := c'.taken, queued := c'.queued }

theorem Sends.refl (c : Client) : Sends c c [] := ⟨by simp, by simp, rfl⟩

theorem Sends.trans {c d e : Client} {frames more : List OutFrame} (first : Sends c d frames)
    (second : Sends d e more) : Sends c e (frames ++ more) where
  queued := by rw [second.queued, first.queued, List.append_assoc]
  stream := by rw [second.stream, first.stream, List.flatMap_append, List.append_assoc, List.append_assoc]
  input := by rw [second.input, first.input]

theorem sendSome_some {c c' : Client} {data : Bytes} {n : Nat} (sent : c.sendSome data = (some n, c')) :
    c' = { c with sends := c'.sends, taken := c.taken ++ data.take n } := by
  unfold Client.sendSome at sent
  split at sent <;> cases sent
  · simp
  · rfl

theorem sendSome_none {c c' : Client} {data : Bytes} (failed : c.sendSome data = (none, c')) : Sends c c' [] := by
  unfold Client.sendSome at failed
  split at failed <;> cases failed
  exact ⟨by simp, by simp, rfl⟩

theorem flushLoop_sends (bound : Nat) (c : Client) : Sends c (c.flushLoop bound).2 [] := by
  induction bound generalizing c with
  | zero => exact .refl c
  | succ bound ih =>
      rw [Client.flushLoop]
      split
      · exact .refl c
      · split
        next c' failed => exact sendSome_none failed
        next n c' sent =>
          have next : Sends c { c' with outbuf := c'.outbuf.drop n } [] := by
            rw [sendSome_some sent]
            exact ⟨by simp, by simp, rfl⟩
          split
          next nothing =>
            rw [nothing] at next
            exact next
          · exact next.trans (ih _)

theorem flushOut_sends (c : Client) : Sends c c.flushOut.2 [] := flushLoop_sends _ c

theorem keepRest_sends {c c' : Client} {frame : OutFrame} {n : Nat} (nothing : c.outbuf = [] ∨ n = 0)
    (sent : c' = { c with sends := c'.sends, taken := c.taken ++ frame.bytes.take n }) :
    Sends c (c'.keepRest frame n).2 [frame] := by
  rw [sent]
  refine ⟨rfl, ?_, rfl⟩
  obtain nothing | rfl := nothing
  · simp [Client.keepRest, nothing]
  · simp [Client.keepRest]

theorem queueOut_sends (c : Client) (frame : OutFrame) :
    Sends c (c.queueOut frame).2 [frame] ∨ (c.queueOut frame).1 = false ∧ Sends c (c.queueOut frame).2 [] := by
  have flushed := flushOut_sends c
  rw [Client.queueOut]
  generalize c.flushOut = result at flushed ⊢
  obtain ⟨ok, d⟩ := result
  simp only
  split
  · exact .inr ⟨rfl, flushed⟩
  · split
    next nothing =>
      split
      next e failed => exact .inr ⟨rfl, flushed.trans (sendSome_none failed)⟩
      next n e sent => exact .inl (flushed.trans (keepRest_sends (.inl nothing) (sendSome_some sent)))
    · exact .inl (flushed.trans (keepRest_sends (.inr rfl) (by simp)))

/-! ## Kept or closed -/

def Fate (P : Client → Prop) (E : Client → Reason → Prop) : Option Reason × Client → Prop
  | (none, c) => P c
  | (some reason, c) => E c reason

def Each (P : Client → Prop) (E : Client → Reason → Prop) (h : WebSocketHub) : Prop :=
  (∀ c ∈ h.clients, P c) ∧ ∀ c reason, (c, reason) ∈ h.closed → E c reason

/-- What the critical sections do to one client, but for those that queue a text frame to it. -/
structure KeptByHub (P : Client → Prop) (E : Client → Reason → Prop) : Prop where
  flush : ∀ c, P c → P c.flushOut.2
  read : ∀ c, P c → ∀ bound budget, Fate P E (c.readLoop bound budget)
  failed : ∀ c, P c → E c .sendFailed
  drop : ∀ c, P c → E (c.sendClose [0x03, 0xf0]) .session
  shutDown : ∀ c, P c → E c .shutDown

def Queues (P : Client → Prop) : WebSocketHub.Op → Prop
  | .add fd session sends recvs none => P (WebSocketHub.newClient fd session sends recvs)
  | .add fd session sends recvs (some first) => P { WebSocketHub.newClient fd session sends recvs with
      outbuf := (OutFrame.text first).bytes, queued := [.text first] }
  | .broadcast payload => ∀ c, P c → P (c.queueOut (.text payload)).2
  | _ => True

section Runs
variable {P Q : Client → Prop} {E : Client → Reason → Prop} {h : WebSocketHub}

theorem Each.imp (each : Each P E h) (implies : ∀ c, P c → Q c) : Each Q E h :=
  ⟨fun c member => implies c (each.1 c member), each.2⟩

theorem Each.forEach {f : Client → Option Reason × Client} (each : Each P E h)
    (keeps : ∀ c, P c → Fate Q E (f c)) : Each Q E (h.forEach f) := by
  constructor
  · intro c member
    obtain ⟨before, member, kept⟩ := List.mem_filterMap.mp member
    have fate := keeps before (each.1 before member)
    generalize f before = result at kept fate
    obtain ⟨reason | reason, after⟩ := result
    · cases kept
      exact fate
    · cases kept
  · intro c reason member
    obtain member | member := List.mem_append.mp member
    · exact each.2 c reason member
    · obtain ⟨before, member, closed⟩ := List.mem_filterMap.mp member
      have fate := keeps before (each.1 before member)
      generalize f before = result at closed fate
      obtain ⟨why | why, after⟩ := result
      · cases closed
      · cases closed
        exact fate

theorem Each.close {c : Client} {reason : Reason} (each : Each P E h) (ended : E c reason) :
    Each P E { h with closed := h.closed ++ [(c, reason)] } := by
  refine ⟨each.1, fun d why member => ?_⟩
  obtain member | member := List.mem_append.mp member
  · exact each.2 d why member
  · cases List.mem_singleton.mp member
    exact ended

theorem Each.add {c : Client} (each : Each P E h) (new : P c) : Each P E (h.add c) := by
  refine ⟨fun d member => ?_, each.2⟩
  obtain member | member := List.mem_append.mp member
  · exact each.1 d member
  · cases List.mem_singleton.mp member
    exact new

theorem KeptByHub.flushOwed (kept : KeptByHub P E) (each : Each P E h) (fd : Int) : Each P E (h.flushOwed fd) := by
  rw [WebSocketHub.flushOwed]
  split
  · exact each
  next c found =>
    have member := List.mem_of_getElem? found
    have flushed := kept.flush c (each.1 c member)
    generalize c.flushOut = result at flushed ⊢
    obtain ⟨ok, d⟩ := result
    cases ok with
    | false =>
        exact Each.close (h := ⟨h.clients.eraseIdx _, h.closed⟩)
          ⟨fun e still => each.1 e (List.mem_of_mem_eraseIdx still), each.2⟩ (kept.failed d flushed)
    | true =>
        refine ⟨fun e still => ?_, each.2⟩
        obtain still | rfl := List.mem_or_eq_of_mem_set still
        · exact each.1 e still
        · exact flushed

theorem KeptByHub.addFirst (kept : KeptByHub P E) (each : Each P E h) {c : Client} {first : Payload}
    (new : P { c with outbuf := (OutFrame.text first).bytes, queued := [.text first] }) :
    Each P E (h.addFirst c first) := by
  have flushed := kept.flush _ new
  rw [WebSocketHub.addFirst]
  generalize Client.flushOut _ = result at flushed ⊢
  obtain ⟨ok, d⟩ := result
  cases ok with
  | false => exact each.close (kept.failed d flushed)
  | true => exact each.add flushed

theorem KeptByHub.service (kept : KeptByHub P E) (c : Client) (holds : P c) : Fate P E c.service := by
  have flushed := kept.flush c holds
  rw [Client.service]
  generalize c.flushOut = result at flushed ⊢
  obtain ⟨ok, d⟩ := result
  cases ok with
  | false => exact kept.failed d flushed
  | true => exact kept.read d flushed _ _

theorem Each.broadcast {payload : Payload} (each : Each P E h)
    (queued : ∀ c, P c → (c.queueOut (.text payload)).1 = true → Q (c.queueOut (.text payload)).2)
    (failed : ∀ c, P c → (c.queueOut (.text payload)).1 = false → E (c.queueOut (.text payload)).2 .sendFailed) :
    Each Q E (h.broadcast payload) := by
  refine each.forEach fun c holds => ?_
  have queued := queued c holds
  have failed := failed c holds
  generalize c.queueOut (.text payload) = result at queued failed ⊢
  obtain ⟨ok, d⟩ := result
  cases ok with
  | false => exact failed rfl
  | true => exact queued rfl

theorem KeptByHub.step (kept : KeptByHub P E) (each : Each P E h) {op : WebSocketHub.Op} (queues : Queues P op) :
    Each P E (h.step op) := by
  cases op with
  | add fd session sends recvs first =>
      cases first with
      | none => exact each.add queues
      | some first => exact kept.addFirst each queues
  | broadcast payload =>
      exact each.broadcast (fun c holds _ => queues c holds) fun c holds _ => kept.failed _ (queues c holds)
  | service => exact each.forEach kept.service
  | flushOwed fd => exact kept.flushOwed each fd
  | dropSessions gone =>
      refine each.forEach fun c holds => ?_
      split
      · exact kept.drop c holds
      · exact holds
  | closeAll => exact each.forEach kept.shutDown

theorem KeptByHub.run (kept : KeptByHub P E) (queues : ∀ op, Queues P op) (ops : List WebSocketHub.Op) :
    Each P E (WebSocketHub.empty.run ops) := by
  have start : Each P E WebSocketHub.empty := ⟨by simp [WebSocketHub.empty], by simp [WebSocketHub.empty]⟩
  exact List.foldlRecOn ops WebSocketHub.step start fun _ each op _ => kept.step each (queues op)

end Runs

/-! ## Properties of what a client is sent -/

def texts (frames : List OutFrame) : List Payload := frames.filterMap fun
  | .text payload => some payload
  | .pong _ => none

theorem texts_append (frames more : List OutFrame) : texts (frames ++ more) = texts frames ++ texts more :=
  List.filterMap_append

/-- The property says nothing of the client's input, and no frame but a text breaks it. -/
structure KeptByOutput (P : Client → Prop) (E : Client → Reason → Prop) : Prop where
  input : ∀ {c : Client} skip inbuf recvs given read, P c → P { c with skip, inbuf, recvs, given, read }
  sends : ∀ {c c' : Client} {frames : List OutFrame}, Sends c c' frames → texts frames = [] → P c → P c'
  ends : ∀ {c : Client} reason, P c → E c reason
  close : ∀ {c : Client} {status : Bytes} {reason : Reason}, reason = .refused ∨ reason = .session →
    status = [] ∨ status.length = 2 → P c → E (c.sendClose status) reason

namespace KeptByOutput
variable {P : Client → Prop} {E : Client → Reason → Prop} {c : Client}

theorem pong (kept : KeptByOutput P E) (holds : P c) (payload : ControlPayload) :
    P (c.queueOut (.pong payload)).2 := by
  obtain sends | ⟨-, sends⟩ := queueOut_sends c (.pong payload)
  · exact kept.sends sends rfl holds
  · exact kept.sends sends rfl holds

theorem echoed_length (payload : Bytes) :
    (if payload.length ≥ 2 then payload.take 2 else []) = [] ∨
      (if payload.length ≥ 2 then payload.take 2 else []).length = 2 := by
  split
  next long => exact .inr (List.length_take_of_le long)
  · exact .inl rfl

theorem consumeLoop (kept : KeptByOutput P E) (bound : Nat) (holds : P c) : Fate P E (c.consumeLoop bound) := by
  induction bound generalizing c with
  | zero => exact holds
  | succ bound ih =>
      rw [Client.consumeLoop]
      split
      next skip inbuf _ => exact kept.input skip inbuf _ _ _ holds
      next inbuf _ => exact kept.ends .refused (kept.input 0 inbuf _ _ _ holds)
      next opcode payload inbuf _ =>
        by_cases close : opcode = kOpClose
        · rw [if_pos close]
          exact kept.close (.inl rfl) (echoed_length payload.val) (kept.input 0 inbuf _ _ _ holds)
        rw [if_neg close]
        have read := kept.input 0 inbuf c.recvs c.given (c.read ++ [.control opcode payload]) holds
        simp only
        by_cases ping : opcode = kOpPing
        · rw [if_pos ping]
          split
          · exact kept.ends .sendFailed (kept.pong read payload)
          · exact ih (kept.pong read payload)
        · rw [if_neg ping]
          exact ih read
      next opcode len inbuf _ => exact ih (kept.input len inbuf _ _ _ holds)

theorem recv (kept : KeptByOutput P E) (holds : P c) (want : Nat) : P (c.recv want).2 := by
  unfold Client.recv
  split
  · exact holds
  · exact kept.input _ _ _ _ _ holds
  · exact kept.input _ _ _ _ _ holds

theorem readLoop (kept : KeptByOutput P E) (bound budget : Nat) (holds : P c) :
    Fate P E (c.readLoop bound budget) := by
  induction bound generalizing budget c with
  | zero => exact holds
  | succ bound ih =>
      rw [Client.readLoop]
      split
      · exact holds
      · simp only
        have received := kept.recv holds (if budget < 512 then budget else 512)
        split
        next data d result =>
          rw [result] at received
          split
          · exact kept.ends .gone received
          · have appended := kept.input d.skip (d.inbuf ++ data) d.recvs d.given d.read received
            have consumed := kept.consumeLoop (d.inbuf ++ data).length.succ appended
            rw [Client.consumeFrames]
            split
            next reason e result =>
              rw [result] at consumed
              exact consumed
            next e result =>
              rw [result] at consumed
              split
              · exact kept.ends .inputOverflow consumed
              · exact ih _ consumed
        next d result =>
          rw [result] at received
          exact received
        next result =>
          rw [result] at received
          exact kept.ends .gone received

theorem keptByHub (kept : KeptByOutput P E) : KeptByHub P E where
  flush := fun c holds => kept.sends (flushOut_sends c) rfl holds
  read := fun _ holds bound budget => kept.readLoop bound budget holds
  failed := fun _ holds => kept.ends .sendFailed holds
  drop := fun _ holds => kept.close (.inr rfl) (.inr rfl) holds
  shutDown := fun _ holds => kept.ends .shutDown holds

end KeptByOutput

end Budyk.Proof
