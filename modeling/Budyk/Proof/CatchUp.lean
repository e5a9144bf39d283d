import Budyk.Daemon.CatchUp
import Budyk.Proof.HotBuffer
import Budyk.Proof.HubRuns

/-! No tick is lost to a client that connects. -/

namespace Budyk.Proof
open Web Daemon

section CatchUp
variable {Sample Detail : Type}

def pushes (events : List (Event Sample Detail)) : List (Sample × Detail) := events.filterMap fun
  | .push s detail => some (s, detail)
  | _ => none

def logged (log : List Sample) : Event Sample Detail → List Sample
  | .push s _ => log ++ [s]
  | .reset => []
  | _ => log

def sinceReset (events : List (Event Sample Detail)) : List Sample := events.foldl logged []

def ticks (messages : List (Message Sample Detail)) : List (Sample × Detail) := messages.filterMap fun
  | .tick s detail => some (s, detail)
  | .alerts _ => none

/-- The sample pushed whose broadcast is still to come, if the hub has a client. -/
def owed (d : State Sample Detail) : List (Sample × Detail) :=
  ticks d.sending.toList ++ (d.pending.map fun s => (s, d.latestDetail)).toList

variable {samplesToJson : List Sample → Option Detail → Payload} {fd : Int} {d d' : State Sample Detail}
  {event : Event Sample Detail}

inductive Steps (samplesToJson : List Sample → Option Detail → Payload) (fd : Int) (d : State Sample Detail) :
    Event Sample Detail → State Sample Detail → Prop where
  | push (s : Sample) (detail : Detail) (pending : d.pending = none) (sending : d.sending = none) :
      Steps samplesToJson fd d (.push s detail) { d with
        hot := d.hot.push s, latestDetail := detail, pending := some s }
  | reset (pending : d.pending = none) (sending : d.sending = none) :
      Steps samplesToJson fd d .reset { d with hot := d.hot.reset }
  | counted (s : Sample) (pending : d.pending = some s) (sending : d.sending = none) (free : d.hubFree)
      (connected : d.hub.clients ≠ []) :
      Steps samplesToJson fd d .size { d with pending := none, sending := some (.tick s d.latestDetail) }
  | alone (s : Sample) (pending : d.pending = some s) (sending : d.sending = none) (free : d.hubFree)
      (nobody : d.hub.clients = []) : Steps samplesToJson fd d .size { d with pending := none, sending := none }
  | alerts (payload : Payload) (later : Option Payload) (sending : d.sending = none) :
      Steps samplesToJson fd d (.alerts payload) { d with sending := later.map .alerts }
  | broadcast (message : Message Sample Detail) (sending : d.sending = some message) (free : d.hubFree) :
      Steps samplesToJson fd d .broadcast { d with
        hub := d.hub.broadcast (message.payload samplesToJson), sending := none }
  | lock (joining : d.joining = .outside) (unused : ∀ c ∈ d.hub.clients, c.fd ≠ fd) :
      Steps samplesToJson fd d .lock { d with joining := .locked }
  | snapshot (joining : d.joining = .locked) :
      Steps samplesToJson fd d .snapshot { d with joining := .snapped (d.hot.dumpLast (min d.hot.size kCatchupSamples)) }
  | register (session : String) (sends : List SendResult) (recvs : List RecvResult) (snap : List Sample)
      (joining : d.joining = .snapped snap) :
      Steps samplesToJson fd d (.register session sends recvs) { d with
        hub := d.hub.addFirst (WebSocketHub.newClient fd session sends recvs) (samplesToJson snap none)
        joining := .done }
  | other (op : WebSocketHub.Op) (free : d.hubFree) (allowed : d.allows fd op) :
      Steps samplesToJson fd d (.other op) { d with hub := d.hub.step op }

theorem steps_of_step (stepped : d.step samplesToJson fd event = some d') : Steps samplesToJson fd d event d' := by
  cases event with
  | push s detail =>
      simp only [State.step, State.idle, Bool.and_eq_true, Option.isNone_iff_eq_none] at stepped
      split at stepped
      next idle =>
        cases stepped
        exact .push s detail idle.1 idle.2
      · cases stepped
  | reset =>
      simp only [State.step, State.idle, Bool.and_eq_true, Option.isNone_iff_eq_none] at stepped
      split at stepped
      next idle =>
        cases stepped
        exact .reset idle.1 idle.2
      · cases stepped
  | size =>
      simp only [State.step] at stepped
      split at stepped
      next s pending sending =>
        split at stepped
        next free =>
          cases stepped
          by_cases nobody : d.hub.clients = []
          · have step : Steps samplesToJson fd d .size _ := .alone s pending sending free nobody
            simpa [State.hubSize, nobody] using step
          · have step : Steps samplesToJson fd d .size _ := .counted s pending sending free nobody
            simpa [State.hubSize, List.length_pos_iff, nobody] using step
        · cases stepped
      · cases stepped
  | alerts payload =>
      simp only [State.step, Bool.and_eq_true, Option.isNone_iff_eq_none] at stepped
      split at stepped
      next free =>
        cases stepped
        have step (later : Option Payload) : Steps samplesToJson fd d (.alerts payload) _ := .alerts payload later free.1
        split
        · exact step (some payload)
        · exact step none
      · cases stepped
  | broadcast =>
      simp only [State.step] at stepped
      split at stepped
      next message sending =>
        split at stepped
        next free =>
          cases stepped
          exact .broadcast message sending free
        · cases stepped
      · cases stepped
  | lock =>
      simp only [State.step] at stepped
      split at stepped
      next joining =>
        split at stepped
        · cases stepped
        next unused =>
          cases stepped
          exact .lock joining fun c member same => unused (List.mem_map.mpr ⟨c, member, same⟩)
      · cases stepped
  | snapshot =>
      simp only [State.step] at stepped
      split at stepped
      next joining =>
        cases stepped
        have fewer : (if d.hot.size < kCatchupSamples then d.hot.size else kCatchupSamples) =
            min d.hot.size kCatchupSamples := by split <;> omega
        have dumped : (if min d.hot.size kCatchupSamples > 0 then d.hot.dumpLast (min d.hot.size kCatchupSamples) else []) =
            d.hot.dumpLast (min d.hot.size kCatchupSamples) := by
          split
          · rfl
          next nothing => rw [HotBuffer.dumpLast, if_pos (.inl (Nat.eq_zero_of_not_pos nothing))]
        rw [fewer, dumped]
        exact .snapshot joining
      · cases stepped
  | register session sends recvs =>
      simp only [State.step] at stepped
      split at stepped
      next snap joining =>
        cases stepped
        exact .register session sends recvs snap joining
      · cases stepped
  | other op =>
      simp only [State.step, Bool.and_eq_true] at stepped
      split at stepped
      next free =>
        cases stepped
        exact .other op free.1 free.2
      · cases stepped

/-! ## Before the snapshot -/

theorem owed_alerts (later : Option Payload) (sending : d.sending = none) :
    owed { d with sending := later.map .alerts } = owed d := by
  rw [owed, owed, sending]
  cases later <;> rfl

theorem run_concat (d : State Sample Detail) (events : List (Event Sample Detail)) (event : Event Sample Detail) :
    d.run samplesToJson fd (events ++ [event]) =
      (d.run samplesToJson fd events).bind fun d => d.step samplesToJson fd event := by
  rw [State.run, List.foldlM_append]
  simp [State.run]

theorem sinceReset_concat (events : List (Event Sample Detail)) (event : Event Sample Detail) :
    sinceReset (events ++ [event]) = logged (sinceReset events) event := by
  rw [sinceReset, List.foldl_append]
  rfl

/-- The hot buffer holds what was pushed since its last reset, the last of which may not be broadcast yet. -/
structure Collects (fd : Int) (capacity : Nat) (log : List Sample) (d : State Sample Detail) : Prop where
  size : d.hot.capacity = if capacity > 0 then capacity else 1
  hot : Buffers d.hot log
  once : (owed d).length ≤ 1
  newest : (owed d).map Prod.fst <:+ log
  absent : d.joining = .locked → ∀ c ∈ d.hub.clients, c.fd ≠ fd

theorem Collects.step {capacity : Nat} {log : List Sample} (collects : Collects fd capacity log d)
    (steps : Steps samplesToJson fd d event d') : Collects fd capacity (logged log event) d' := by
  obtain ⟨size, hot, once, newest, absent⟩ := collects
  cases steps with
  | push s detail pending sending =>
      refine ⟨size, hot.push s, ?_, ?_, absent⟩
      · simp [owed, sending, ticks]
      · simp [owed, sending, ticks, logged]
  | reset pending sending =>
      refine ⟨size, reset_buffers d.hot, ?_, ?_, absent⟩
      · simp [owed, pending, sending, ticks]
      · simp [owed, pending, sending, ticks]
  | counted s pending sending free connected =>
      rw [owed, pending, sending] at once newest
      exact ⟨size, hot, once, newest, absent⟩
  | alone s pending sending free nobody => exact ⟨size, hot, Nat.zero_le _, List.nil_suffix, absent⟩
  | alerts payload later sending =>
      rw [← owed_alerts later sending] at once newest
      exact ⟨size, hot, once, newest, absent⟩
  | broadcast message sending free =>
      rw [owed, List.length_append] at once
      rw [owed, List.map_append] at newest
      refine ⟨size, hot, Nat.le_of_add_left_le once, (List.suffix_append _ _).trans newest, fun locked => ?_⟩
      simp [State.hubFree, show d.joining = .locked from locked] at free
  | lock joining unused => exact ⟨size, hot, once, newest, fun _ => unused⟩
  | snapshot | register => exact ⟨size, hot, once, newest, nofun⟩
  | other op free allowed =>
      refine ⟨size, hot, once, newest, fun locked => ?_⟩
      simp [State.hubFree, show d.joining = .locked from locked] at free

theorem collects_run [Inhabited Sample] {capacity : Nat} {detail : Detail} {events : List (Event Sample Detail)}
    (ran : (State.start capacity detail).run samplesToJson fd events = some d) :
    Collects fd capacity (sinceReset events) d := by
  induction events using List.reverseRecOn generalizing d with
  | nil =>
      cases ran
      exact ⟨rfl, new_buffers capacity, Nat.zero_le _, List.nil_suffix, nofun⟩
  | append_singleton events event ih =>
      rw [run_concat] at ran
      obtain ⟨before, earlier, stepped⟩ := Option.bind_eq_some_iff.mp ran
      rw [sinceReset_concat]
      exact (ih earlier).step (steps_of_step stepped)

theorem Collects.snapshot {capacity : Nat} {log : List Sample} (collects : Collects fd capacity log d) :
    d.hot.dumpLast (min d.hot.size kCatchupSamples) =
      log.rtake (min kCatchupSamples (if capacity > 0 then capacity else 1)) := by
  have count : d.hot.size = min log.length d.hot.capacity := collects.hot.count
  rw [collects.hot.dumpLast, count, ← collects.size, List.rtake, List.rtake]
  congr 1
  omega

/-! ## After it -/

def Heard (fd : Int) (Q : List Payload → Prop) (c : Client) : Prop := c.fd = fd → Q (texts c.queued)

theorem heard_keptByOutput (fd : Int) (Q : List Payload → Prop) : KeptByOutput (Heard fd Q) fun _ _ => True where
  input := fun _ _ _ _ _ heard => heard
  sends := fun sends quiet heard same => by
    rw [sends.queued, texts_append, quiet, List.append_nil]
    rw [sends.input] at same
    exact heard same
  ends := fun _ _ => trivial
  close := fun _ _ _ => trivial

theorem heard_broadcast {fd : Int} {Q Q' : List Payload → Prop} {payload : Payload} {h : WebSocketHub}
    (each : Each (Heard fd Q) (fun _ _ => True) h) (next : ∀ received, Q received → Q' (received ++ [payload])) :
    Each (Heard fd Q') (fun _ _ => True) (h.broadcast payload) := by
  refine each.broadcast (fun c heard queued same => ?_) fun _ _ _ => trivial
  obtain sends | ⟨failed, -⟩ := queueOut_sends c (.text payload)
  · rw [sends.input] at same
    rw [sends.queued, texts_append]
    exact next _ (heard same)
  · rw [failed] at queued
    cases queued

/-- The catch-up frame, and then all that was broadcast: with what is owed, it is what is expected. -/
def Receives (samplesToJson : List Sample → Option Detail → Payload) (snap : List Sample)
    (expected owed : List (Sample × Detail)) (received : List Payload) : Prop :=
  ∃ messages : List (Message Sample Detail),
    received = samplesToJson snap none :: messages.map (Message.payload samplesToJson) ∧ ticks messages ++ owed = expected

inductive Since (samplesToJson : List Sample → Option Detail → Payload) (fd : Int) (snap : List Sample)
    (expected : List (Sample × Detail)) (d : State Sample Detail) : Prop where
  | registering (joining : d.joining = .snapped snap) (absent : ∀ c ∈ d.hub.clients, c.fd ≠ fd)
      (pending : owed d = expected)
  | registered (joining : d.joining = .done)
      (heard : Each (Heard fd (Receives samplesToJson snap expected (owed d))) (fun _ _ => True) d.hub)

theorem ticks_append (messages more : List (Message Sample Detail)) :
    ticks (messages ++ more) = ticks messages ++ ticks more :=
  List.filterMap_append

variable {snap : List Sample} {expected : List (Sample × Detail)}

def promised (expected : List (Sample × Detail)) : Event Sample Detail → List (Sample × Detail)
  | .push s detail => expected ++ [(s, detail)]
  | _ => expected

theorem promised_eq (expected : List (Sample × Detail)) (event : Event Sample Detail) :
    promised expected event = expected ++ pushes [event] := by
  cases event <;> simp [promised, pushes]

theorem step_registering (joining : d.joining = .snapped snap) (absent : ∀ c ∈ d.hub.clients, c.fd ≠ fd)
    (pending : owed d = expected) (steps : Steps samplesToJson fd d event d') :
    Since samplesToJson fd snap (promised expected event) d' := by
  -- while the upgrade holds the lock, the collector gets no further than a push
  have locked : ¬d.hubFree := by simp [State.hubFree, joining]
  cases steps with
  | push s detail idle sending =>
      refine .registering joining absent ?_
      rw [← pending, owed, owed, idle, sending]
      rfl
  | reset => exact .registering joining absent pending
  | alerts payload later sending =>
      exact .registering joining absent ((owed_alerts later sending).trans pending)
  | counted _ _ _ free | alone _ _ _ free | broadcast _ _ free | other _ free => exact absurd free locked
  | lock outside | snapshot outside =>
      rw [joining] at outside
      cases outside
  | register session sends recvs taken snapped =>
      rw [joining] at snapped
      cases snapped
      apply Since.registered rfl
      apply (heard_keptByOutput fd _).keptByHub.addFirst
      · exact ⟨fun c member same => absurd same (absent c member), fun _ _ _ => trivial⟩
      · exact fun _ => ⟨[], rfl, pending⟩

theorem step_registered (joining : d.joining = .done)
    (heard : Each (Heard fd (Receives samplesToJson snap expected (owed d))) (fun _ _ => True) d.hub)
    (steps : Steps samplesToJson fd d event d') : Since samplesToJson fd snap (promised expected event) d' := by
  cases steps with
  | push s detail idle sending =>
      refine .registered joining (heard.imp fun c received same => ?_)
      obtain ⟨messages, frames, received⟩ := received same
      refine ⟨messages, frames, ?_⟩
      rw [promised, ← received, owed, owed, idle, sending]
      simp [ticks]
  | reset => exact .registered joining heard
  | counted s pending sending free connected =>
      rw [owed, pending, sending] at heard
      exact .registered joining heard
  -- with no client in the hub there is none to have missed the sample
  | alone s pending sending free nobody =>
      refine .registered joining ⟨fun c member => ?_, fun _ _ _ => trivial⟩
      rw [nobody] at member
      cases member
  | alerts payload later sending =>
      rw [← owed_alerts later sending] at heard
      exact .registered joining heard
  | broadcast message sending free =>
      refine .registered joining (heard_broadcast heard fun _ received => ?_)
      obtain ⟨messages, frames, received⟩ := received
      refine ⟨messages ++ [message], ?_, ?_⟩
      · rw [frames, List.map_append]
        rfl
      · have unchanged : promised expected (.broadcast : Event Sample Detail) = expected := rfl
        rw [unchanged, ← received, owed, owed, sending, ticks_append]
        simp [ticks]
  | lock outside | snapshot outside | register _ _ _ _ outside =>
      rw [joining] at outside
      cases outside
  | other op free allowed =>
      refine .registered joining ((heard_keptByOutput fd _).keptByHub.step heard ?_)
      cases op with
      | add other session sends recvs first =>
          have different : other ≠ fd := by simpa [State.allows, joining] using allowed
          cases first with
          | none => exact fun same => absurd same different
          | some first => exact fun same => absurd same different
      | broadcast payload => cases allowed
      | service | flushOwed owner | dropSessions gone | closeAll => trivial

theorem since_run {start : State Sample Detail} {after : List (Event Sample Detail)}
    (since : Since samplesToJson fd snap expected start) (ran : start.run samplesToJson fd after = some d) :
    Since samplesToJson fd snap (expected ++ pushes after) d := by
  induction after using List.reverseRecOn generalizing d with
  | nil =>
      cases ran
      rw [pushes, List.filterMap_nil, List.append_nil]
      exact since
  | append_singleton events event ih =>
      rw [run_concat] at ran
      obtain ⟨before, earlier, stepped⟩ := Option.bind_eq_some_iff.mp ran
      have steps := steps_of_step stepped
      rw [pushes, List.filterMap_append, ← List.append_assoc, ← pushes, ← pushes, ← promised_eq]
      cases ih earlier with
      | registering joining absent pending => exact step_registering joining absent pending steps
      | registered joining heard => exact step_registered joining heard steps

theorem Collects.pending_snapped {capacity : Nat} {log : List Sample} (collects : Collects fd capacity log d) :
    (owed d).map Prod.fst <:+ log.rtake (min kCatchupSamples (if capacity > 0 then capacity else 1)) := by
  have newest := collects.newest
  have once := collects.once
  have length := newest.length_le
  apply List.suffix_of_suffix_length_le newest (List.drop_suffix _ _)
  rw [List.length_map] at length ⊢
  rw [List.length_drop, kCatchupSamples]
  split <;> omega

variable [Inhabited Sample] {capacity : Nat} {detail : Detail} {before after : List (Event Sample Detail)} {c : Client}

/-- In every interleaving, as long as the client is connected: after the catch-up frame it is sent every sample pushed
since the snapshot, once and in order, the last of them when its broadcast is done; before them at most the one sample
whose broadcast was pending at the snapshot, which is in the snapshot too. -/
theorem no_tick_lost
    (ran : (State.start capacity detail).run samplesToJson fd (before ++ .snapshot :: after) = some d)
    (connected : c ∈ d.hub.clients) (descriptor : c.fd = fd) :
    ∃ (atSnapshot : State Sample Detail) (snap : List Sample) (messages : List (Message Sample Detail)),
      (State.start capacity detail).run samplesToJson fd before = some atSnapshot ∧
      snap = (sinceReset before).rtake (min kCatchupSamples (if capacity > 0 then capacity else 1)) ∧
      texts c.queued = samplesToJson snap none :: messages.map (Message.payload samplesToJson) ∧
      ticks messages ++ owed d = owed atSnapshot ++ pushes after ∧
      (owed d).length ≤ 1 ∧ (owed atSnapshot).length ≤ 1 ∧ (owed atSnapshot).map Prod.fst <:+ snap := by
  have collects := collects_run ran
  rw [State.run, List.foldlM_append] at ran
  obtain ⟨atSnapshot, early, late⟩ := Option.bind_eq_some_iff.mp ran
  rw [List.foldlM_cons] at late
  obtain ⟨start, stepped, late⟩ := Option.bind_eq_some_iff.mp late
  have earlier := collects_run early
  have since : Since samplesToJson fd (atSnapshot.hot.dumpLast (min atSnapshot.hot.size kCatchupSamples))
      (owed atSnapshot) start := by
    cases steps_of_step stepped with
    | snapshot joining => exact .registering rfl (earlier.absent joining) rfl
  rw [earlier.snapshot] at since
  cases since_run since late with
  | registering joining absent pending => exact absurd descriptor (absent c connected)
  | registered joining heard =>
      obtain ⟨messages, frames, received⟩ := heard.1 c connected descriptor
      exact ⟨atSnapshot, _, messages, early, rfl, frames, received, collects.once, earlier.once, earlier.pending_snapped⟩

end CatchUp

def rawJson (samples : List Nat) (_ : Option Unit) : Payload :=
  ⟨(samples.take 300).map UInt8.ofNat, by
    rw [List.length_map, List.length_take]
    omega⟩

/-- A sample is pushed and its broadcast pending when the client takes the hub's lock; another follows. -/
theorem no_tick_lost_pending : ∃ (d : State Nat Unit) (c : Client) (messages : List (Message Nat Unit)),
    (State.start 2 ()).run rawJson 3 ([.push 1 (), .lock] ++ .snapshot ::
      [.register "" [] [], .size, .broadcast, .push 2 ()]) = some d ∧
    c ∈ d.hub.clients ∧ c.fd = 3 ∧ texts c.queued = rawJson [1] none :: messages.map (Message.payload rawJson) ∧
    ticks messages ++ owed d = [(1, ()), (2, ())] := by
  have clients : ((State.start 2 ()).run rawJson 3 ([.push 1 (), .lock] ++ .snapshot ::
      [.register "" [] [], .size, .broadcast, .push 2 ()])).map (fun d => d.hub.clients.map Client.fd) = some [3] := by
    decide +kernel
  have waiting : ((State.start 2 ()).run rawJson 3 [.push 1 (), .lock]).map owed = some [(1, ())] := by
    decide +kernel
  obtain ⟨d, ran, fds⟩ := Option.map_eq_some_iff.mp clients
  obtain ⟨c, connected, descriptor⟩ := List.mem_map.mp (fds ▸ List.mem_singleton_self 3)
  obtain ⟨atSnapshot, snap, messages, early, rfl, frames, received, -⟩ := no_tick_lost ran connected descriptor
  rw [early, Option.map_some, Option.some_inj] at waiting
  rw [waiting] at received
  exact ⟨d, c, messages, ran, connected, descriptor, frames, received⟩

end Budyk.Proof
