import Budyk.Daemon.Router
import Budyk.Proof.SessionLife

namespace Budyk.Proof
open Lib Web Daemon RouterDeps

section Router
variable {Alert : Type} {d : RouterDeps Alert} {reads : Readings} {req : HttpRequest}
  {sessions : SessionStore} {limiter : LoginLimiter} {f g : RouterState Alert → HttpResponse × RouterState Alert}

/-- The answer, and what becomes of the sessions and the throttle, are given by these two alone; nothing else of the
daemon changes, and no socket is handed out. -/
def Blind (sessions : SessionStore) (limiter : LoginLimiter) (f : RouterState Alert → HttpResponse × RouterState Alert) :
    Prop :=
  ∃ r sessions' limiter', r.hijack = none ∧ ∀ s, s.sessions = sessions → s.limiter = limiter →
    f s = (r, { s with sessions := sessions', limiter := limiter' })

theorem blind_answer {r : HttpResponse} (kept : r.hijack = none) :
    Blind sessions limiter fun s : RouterState Alert => (r, s) := by
  refine ⟨r, sessions, limiter, kept, ?_⟩
  rintro s rfl rfl
  rfl

theorem blind_ite {c : Prop} [Decidable c] (first : Blind sessions limiter f) (second : Blind sessions limiter g) :
    Blind sessions limiter fun s => if c then f s else g s := by
  split
  · exact first
  · exact second

theorem blind_moves (sessions' : SessionStore) (limiter' : LoginLimiter) {r : HttpResponse}
    (answers : ∀ s, s.sessions = sessions → s.limiter = limiter →
      f s = (r, { s with sessions := sessions', limiter := limiter' })) (kept : r.hijack = none) :
    Blind sessions limiter f := ⟨r, sessions', limiter', kept, answers⟩

theorem blind_limiter {limiter' : LoginLimiter} (next : Blind sessions limiter' f) :
    Blind sessions limiter fun s => f { s with limiter := limiter' } := by
  obtain ⟨r, sessions', last, kept, answers⟩ := next
  refine ⟨r, sessions', last, kept, ?_⟩
  intro s same _
  exact answers { s with limiter := limiter' } same rfl

theorem Blind.congr (blind : Blind sessions limiter f)
    (same : ∀ s, s.sessions = sessions → s.limiter = limiter → g s = f s) : Blind sessions limiter g := by
  obtain ⟨r, sessions', limiter', kept, answers⟩ := blind
  refine ⟨r, sessions', limiter', kept, ?_⟩
  intro s first second
  rw [same s first second, answers s first second]

/-! The check of the session. -/

def NoSession (d : RouterDeps Alert) (reads : Readings) (req : HttpRequest) (sessions : SessionStore) : Prop :=
  ∀ deadline ∈ sessions.deadline.lookup (d.token req), deadline ≤ reads.now

theorem touch_refused {tok : Token} {now : Nat} (named : tok ≠ [])
    (expired : ∀ deadline ∈ sessions.deadline.lookup tok, deadline ≤ now) : (sessions.touch tok now).ok = false := by
  rw [Bool.eq_false_iff, Ne, touch_ok named]
  rintro ⟨deadline, held, live⟩
  exact absurd (expired deadline held) (Nat.not_le_of_lt live)

theorem blind_authed (auth : d.authEnabled = true) (noSession : NoSession d reads req sessions) {r : HttpResponse}
    (kept : r.hijack = none) :
    Blind sessions limiter fun s =>
      match d.authed reads req s with
      | (false, s) => (r, s)
      | (true, s) => f s := by
  by_cases cookie : req.header (text "Cookie") = []
  · apply (blind_answer kept).congr
    intro s _ _
    simp [authed, auth, cookie]
  · by_cases named : d.token req = []
    · apply (blind_answer kept).congr
      intro s _ _
      simp [authed, auth, cookie, named]
    · have refused := touch_refused named noSession
      refine ⟨r, (sessions.touch (d.token req) reads.now).store, limiter, kept, ?_⟩
      rintro s rfl rfl
      simp only [authed, auth, cookie, named, Bool.not_true, Bool.false_eq_true, if_false]
      rw [refused]

/-! The routes. -/

theorem blind_checkPassword : Blind sessions limiter (d.checkPassword reads req) := by
  unfold checkPassword
  split
  · exact blind_answer rfl
  · exact blind_answer rfl
  next pw _ _ =>
    apply blind_ite
    · apply blind_moves sessions (limiter.recordFailure req.peer reads.nowS).2
      · intro s first second
        rw [← first, ← second]
      · rfl
    · dsimp only
      apply blind_ite
      · apply blind_moves sessions (limiter.recordSuccess req.peer)
        · intro s first second
          rw [← first, ← second]
        · rfl
      · apply blind_moves (sessions.create (newSessionToken reads.random) reads.now) (limiter.recordSuccess req.peer)
        · intro s first second
          rw [← first, ← second]
        · rfl

theorem blind_login : Blind sessions limiter (d.login reads req) := by
  unfold login
  apply blind_ite (blind_answer rfl)
  apply blind_ite (blind_answer rfl)
  apply blind_ite (blind_answer rfl)
  cases answer : limiter.retryAfter req.peer reads.nowS with
  | mk wait limiter' =>
      have next : Blind sessions limiter' fun s : RouterState Alert =>
          if wait > 0 then (tooManyAttempts wait, s) else d.checkPassword reads req s :=
        blind_ite (blind_answer rfl) blind_checkPassword
      apply (blind_limiter next).congr
      intro s _ second
      rw [second, answer]

theorem blind_logout : Blind sessions limiter (d.logout req) := by
  unfold logout
  by_cases named : req.header (text "Cookie") ≠ [] ∧ d.token req ≠ []
  · apply blind_moves (sessions.revoke (d.token req)).1 limiter
    · intro s first second
      dsimp only
      rw [if_pos named, ← first, ← second]
    · rfl
  · apply blind_moves sessions limiter
    · intro s first second
      dsimp only
      rw [if_neg named, ← first, ← second]
    · rfl

theorem blind_websocket (auth : d.authEnabled = true) (noSession : NoSession d reads req sessions) :
    Blind sessions limiter (d.websocket reads req) := by
  unfold websocket
  apply blind_ite (blind_answer rfl)
  apply blind_ite (blind_answer rfl)
  exact blind_authed auth noSession rfl

theorem blind_route (auth : d.authEnabled = true) (noSession : NoSession d reads req sessions) :
    Blind sessions limiter (d.route reads req) := by
  unfold route
  dsimp only
  apply blind_ite (blind_answer rfl)
  apply blind_ite (blind_answer rfl)
  apply blind_ite (blind_answer rfl)
  apply blind_ite blind_login
  apply blind_ite blind_logout
  apply blind_ite (blind_authed auth noSession rfl)
  apply blind_ite (blind_authed auth noSession rfl)
  apply blind_ite (blind_authed auth noSession rfl)
  apply blind_ite (blind_authed auth noSession rfl)
  apply blind_ite (blind_websocket auth noSession)
  exact blind_answer rfl

theorem no_session_no_leak (d : RouterDeps Alert) (auth : d.authEnabled = true) (reads : Readings) (req : HttpRequest)
    (s t : RouterState Alert) (sessions : t.sessions = s.sessions) (limiter : t.limiter = s.limiter)
    (noSession : ∀ deadline ∈ s.sessions.deadline.lookup (d.token req), deadline ≤ reads.now) :
    (d.route reads req t).1 = (d.route reads req s).1 ∧
    (d.route reads req s).1.hijack = none ∧
    (d.route reads req s).2 =
      { s with sessions := (d.route reads req s).2.sessions, limiter := (d.route reads req s).2.limiter } := by
  obtain ⟨r, sessions', limiter', kept, answers⟩ := blind_route auth noSession
  rw [answers t sessions limiter, answers s rfl rfl]
  exact ⟨rfl, kept, rfl⟩

/-! Requests one after another. -/

structure Arrival where
  reads : Readings
  req : HttpRequest

def handle (d : RouterDeps Alert) (s : RouterState Alert) (a : Arrival) : RouterState Alert := (d.route a.reads a.req s).2

def responses (d : RouterDeps Alert) (s : RouterState Alert) (arrivals : List Arrival) : List HttpResponse :=
  reports (handle d) (fun s a => [(d.route a.reads a.req s).1]) s arrivals

/-- Two daemons with the same sessions and throttle cannot be told apart by requests without a session. -/
theorem no_session_run (auth : d.authEnabled = true) (arrivals : List Arrival) (s t : RouterState Alert)
    (sessions : t.sessions = s.sessions) (limiter : t.limiter = s.limiter)
    (noSession : Along (handle d) (fun s a => NoSession d a.reads a.req s.sessions) s arrivals) :
    responses d t arrivals = responses d s arrivals := by
  induction arrivals generalizing s t with
  | nil => rfl
  | cons a rest ih =>
      have blind : Blind s.sessions s.limiter (d.route a.reads a.req) := blind_route auth noSession.1
      obtain ⟨r, sessions', limiter', -, answers⟩ := blind
      have first := answers s rfl rfl
      have second := answers t sessions limiter
      have later := ih (handle d s a) (handle d t a) (by rw [handle, handle, first, second])
        (by rw [handle, handle, first, second]) noSession.2
      unfold responses reports
      rw [first, second]
      exact congrArg _ later

end Router

theorem freshCapacity_pos : 0 < 4 := by decide

def freshDaemon : RouterState Unit where
  hot := ⟨4, Vector.replicate 4 (mkSample Level.L1 0), 0, 0, freshCapacity_pos, by decide⟩
  latestDetail := none
  recentAlerts := none
  tm := Storage.TierManager.fresh 60 300
  sched := ⟨{}, fun _ => [], fun _ => []⟩
  ws := WebSocketHub.empty
  lastPollNs := 0
  wakes := 0
  sessions := SessionStore.new 86400
  limiter := LoginLimiter.new 5 60 50

def busyDaemon : RouterState Unit :=
  { freshDaemon with hot := freshDaemon.hot.push (mkSample Level.L3 7), latestDetail := some (text "\x7b\x7d"), lastPollNs := 5 }

def deps : RouterDeps Unit where
  authEnabled := true
  passwordHash := text "$argon2id$"
  listenAddr := text "127.0.0.1"
  listenPort := 8080
  webAllowedHosts := []
  hostname := text "host"
  version := text "1"
  pollerWindowNs := 5000000000
  wake := true
  argon2Verify := fun _ _ => -1
  inetPton := fun h => h = text "127.0.0.1"
  samplesToJson := fun samples _ => decimal samples.length
  alertsToJson := fun alerts => decimal alerts.length
  jsonEscape := id
  jsonGetString := fun _ _ => none
  kSpaIndexHtml := []
  sort := Storage.TimeSort.stable

def poll : HttpRequest where
  method := text "GET"
  path := text "/api/samples"
  query := []
  peer := text "10.0.0.1"
  headers := [(text "Cookie", deps.cookieName ++ text "=00")]
  body := []

/-- The session that the poll names has just expired; another's is live. -/
def expiredSession (s : RouterState Unit) : RouterState Unit :=
  { s with sessions := { s.sessions with deadline := (s.sessions.deadline.insert (text "11") 900).insert (text "00") 1 } }

theorem no_session_no_leak_poll :
    (deps.route ⟨1, 1, 1, none⟩ poll (expiredSession busyDaemon)).1 =
      (deps.route ⟨1, 1, 1, none⟩ poll (expiredSession freshDaemon)).1 ∧
    (deps.route ⟨1, 1, 1, none⟩ poll (expiredSession freshDaemon)).1.hijack = none ∧
    (deps.route ⟨1, 1, 1, none⟩ poll (expiredSession freshDaemon)).2 = { expiredSession freshDaemon with
      sessions := (deps.route ⟨1, 1, 1, none⟩ poll (expiredSession freshDaemon)).2.sessions
      limiter := (deps.route ⟨1, 1, 1, none⟩ poll (expiredSession freshDaemon)).2.limiter } := by
  apply no_session_no_leak deps rfl ⟨1, 1, 1, none⟩ poll (expiredSession freshDaemon) (expiredSession busyDaemon) rfl rfl
  have named : deps.token poll = text "00" := by decide +kernel
  rw [named]
  intro deadline held
  rw [expiredSession, AList.lookup_insert, Option.mem_some] at held
  exact held.ge

end Budyk.Proof
