import Budyk.Daemon.CatchUp
import Budyk.Scheduler.Scheduler
import Budyk.Storage.QueryAll
import Budyk.Web.Http
import Budyk.Web.LoginLimiter
import Budyk.Web.Session

/-! The HTTP routes (`daemon/router.cpp`). What they call outside the daemon, and the JSON of samples and alerts,
are parameters; the file the sessions are saved to is left out. -/

namespace Budyk.Daemon
open Lib Web

/-! ## What a request says of itself -/

def stripBlanks (s : Bytes) : Bytes := s.rdropWhile blank

def mediaType (req : HttpRequest) : Bytes := (stripBlanks (beforeFirst 59 (req.header (text "Content-Type")))).map toLower

def firstEntry (v : Bytes) : Bytes := (stripBlanks (beforeFirst 44 v)).dropWhile blank

def viaHttps (req : HttpRequest) : Bool := asciiIeq (firstEntry (req.header (text "X-Forwarded-Proto"))) (text "https")

def sameOrigin (req : HttpRequest) : Bool :=
  let origin := req.header (text "Origin")
  if origin = [] then true
  else
    match afterFirst (text "://") origin with
    | none => false
    | some rest =>
        let authority := beforeFirst 47 rest
        if authority = [] then false
        else
          [text "Host", text "X-Forwarded-Host"].any fun h =>
            let v := firstEntry (req.header h)
            v ≠ [] && asciiIeq v authority

def hostName (h : Bytes) : Bytes :=
  if h.head? = some 91 then if 93 ∈ h then (beforeFirst 93 h).tail else []
  else
    let h := beforeFirst 58 h
    if h.getLast? = some 46 then h.dropLast else h

def cookiePath (req : HttpRequest) : Bytes :=
  let p := firstEntry (req.header (text "X-Forwarded-Prefix"))
  let ok (c : UInt8) : Bool := (97 ≤ c && c ≤ 122) || (65 ≤ c && c ≤ 90) || isDigit c || c ∈ text "/-_.~"
  if p = [] ∨ p.head? ≠ some 47 ∨ p.length > 200 then text "/"
  else if !p.all ok then text "/"
  else if p.length > 1 ∧ p.getLast? = some 47 then p.dropLast else p

def cookieAttrs (req : HttpRequest) : Bytes :=
  text "; HttpOnly; Path=" ++ cookiePath req ++ text "; SameSite=Strict" ++
    (if viaHttps req then text "; Secure" else [])

/-- `%08x` -/
def hex8 (h : UInt32) : Bytes :=
  (List.range 8).reverse.map fun i => kHex.getD (h.toNat / 16 ^ i % 16) 0

def fnv1a (key : Bytes) : UInt32 := key.foldl (fun h c => (h ^^^ c.toUInt32) * 16777619) 2166136261

def sessionCookieName (hostname : Bytes) (port : Int) : Bytes :=
  text "budyk_session_" ++ hex8 (fnv1a (hostname ++ text ":" ++ decimalInt port))

/-! ## What the routes are given -/

/-- The level table of the scheduler: the names of the custom levels and of each level's metrics with it. -/
structure LevelTable where
  cfg : SchedulerConfig
  customName : Level → Bytes
  metricNames : Level → List Bytes

namespace LevelTable

def levelName (t : LevelTable) (lv : Level) : Bytes :=
  if lv = Level.L1 then text "L1"
  else if lv = Level.L2 then text "L2"
  else if lv = Level.L3 then text "L3"
  else (Scheduler.findCustom t.cfg lv).elim (text "?") fun c => t.customName c.id

def collects (t : LevelTable) (lv : Level) : Bool := t.cfg.mode ≠ .onDemand || (lv ≠ Level.L1 && lv ≠ Level.L2)

def levelByName (t : LevelTable) (name : Bytes) : Option Level :=
  if asciiIeq (cString name) (text "L1") then some Level.L1
  else if asciiIeq (cString name) (text "L2") then some Level.L2
  else if asciiIeq (cString name) (text "L3") then some Level.L3
  else (t.cfg.customLevels.find? fun c => t.customName c.id = name).map CustomLevel.id

end LevelTable

structure RouterDeps (Alert : Type) where
  authEnabled : Bool
  passwordHash : Bytes
  listenAddr : Bytes
  listenPort : Int
  webAllowedHosts : List Bytes
  hostname : Bytes
  version : Bytes
  pollerWindowNs : Nat
  -- a callback that wakes the collection loop is set
  wake : Bool
  argon2Verify : Bytes → Bytes → Int
  -- an IPv4 or IPv6 address
  inetPton : Bytes → Bool
  samplesToJson : List Sample → Option Bytes → Bytes
  alertsToJson : List Alert → Bytes
  jsonEscape : Bytes → Bytes
  jsonGetString : Bytes → Bytes → Option Bytes
  kSpaIndexHtml : Bytes
  sort : Storage.TimeSort

/-- What the clocks and the kernel's randomness give while one request is handled. -/
structure Readings where
  -- for the session
  now : Nat
  -- for the poller's stamp
  pollNow : Nat
  -- the monotonic clock, in seconds
  nowS : Nat
  random : Option (Vector UInt8 32)

structure RouterState (Alert : Type) where
  hot : HotBuffer Sample
  latestDetail : Option Bytes
  recentAlerts : Option (List Alert)
  tm : Storage.TierManager
  sched : LevelTable
  ws : WebSocketHub
  lastPollNs : Nat
  -- how often the collection loop was woken
  wakes : Nat
  sessions : SessionStore
  limiter : LoginLimiter

namespace RouterDeps
variable {Alert : Type} (d : RouterDeps Alert) (reads : Readings) (req : HttpRequest)

def ownHost (login : Bool) : Bool :=
  if ¬(text "127.").isPrefixOf d.listenAddr then true
  else if d.authEnabled && !login then true
  else
    let raw := req.header (text "Host")
    if raw = [] then true
    else
      let h := hostName raw
      if h = [] then false
      else if d.inetPton h then true
      else if asciiIeq h (text "localhost") then true
      else if h.length > 10 && asciiIeq (h.drop (h.length - 10)) (text ".localhost") then true
      else if d.hostname ≠ [] && asciiIeq h d.hostname then true
      else d.webAllowedHosts.any fun allowed => asciiIeq h allowed

def cookieName : Bytes := sessionCookieName d.hostname d.listenPort

/-- The session's token in the request's cookie, empty for none. -/
def token : Token := cookieValue (req.header (text "Cookie")) d.cookieName

def authed (s : RouterState Alert) : Bool × RouterState Alert :=
  if !d.authEnabled then (true, s)
  else if req.header (text "Cookie") = [] then (false, s)
  else if d.token req = [] then (false, s)
  else
    let checked := s.sessions.touch (d.token req) reads.now
    (checked.ok, { s with sessions := checked.store })

def json : Bytes := text "application/json"
def plain : Bytes := text "text/plain"

def unauthenticated : HttpResponse := ⟨401, json, text "\x7b\"error\":\"unauthenticated\"\x7d\n", [], none⟩

/-! ## The routes -/

def index : HttpResponse := ⟨200, text "text/html; charset=utf-8", d.kSpaIndexHtml, [], none⟩

def health : HttpResponse :=
  ⟨200, json, text "\x7b\"status\":\"ok\",\"version\":\"" ++ d.version ++ text "\",\"hostname\":\"" ++
    d.jsonEscape d.hostname ++ text "\",\"auth\":" ++ text (if d.authEnabled then "true" else "false") ++ text "\x7d\n",
    [], none⟩

def checkPassword (s : RouterState Alert) : HttpResponse × RouterState Alert :=
  match d.jsonGetString req.body (text "password") with
  | none | some [] => (⟨400, json, text "\x7b\"error\":\"missing password\"\x7d\n", [], none⟩, s)
  | some pw =>
      if d.argon2Verify pw d.passwordHash ≠ 0 then
        (⟨401, json, text "\x7b\"error\":\"invalid credentials\"\x7d\n", [], none⟩,
          { s with limiter := (s.limiter.recordFailure req.peer reads.nowS).2 })
      else
        let s := { s with limiter := s.limiter.recordSuccess req.peer }
        let tok := newSessionToken reads.random
        if tok = [] then (⟨500, json, text "\x7b\"error\":\"entropy unavailable\"\x7d\n", [], none⟩, s)
        else
          (⟨200, json, text "\x7b\"ok\":true\x7d\n", [(text "Set-Cookie", d.cookieName ++ text "=" ++ tok ++ cookieAttrs req)],
            none⟩,
            { s with sessions := s.sessions.create tok reads.now })

def tooManyAttempts (wait : Nat) : HttpResponse :=
  ⟨429, json, text "\x7b\"error\":\"too many attempts\",\"retry_after\":" ++ decimal wait ++ text "\x7d\n",
    [(text "Retry-After", decimal wait)], none⟩

def login (s : RouterState Alert) : HttpResponse × RouterState Alert :=
  if !d.authEnabled ∨ d.passwordHash = [] then (⟨403, plain, text "auth disabled\n", [], none⟩, s)
  else if !sameOrigin req then (⟨403, json, text "\x7b\"error\":\"cross-origin login\"\x7d\n", [], none⟩, s)
  else if mediaType req ≠ json then
    (⟨415, json, text "\x7b\"error\":\"the login wants a JSON body (Content-Type: application/json)\"\x7d\n", [], none⟩, s)
  else
    let (wait, limiter) := s.limiter.retryAfter req.peer reads.nowS
    let s := { s with limiter := limiter }
    if wait > 0 then (tooManyAttempts wait, s) else d.checkPassword reads req s

def logout (s : RouterState Alert) : HttpResponse × RouterState Alert :=
  let s :=
    if req.header (text "Cookie") ≠ [] ∧ d.token req ≠ [] then
      { s with sessions := (s.sessions.revoke (d.token req)).1 }
    else s
  (⟨200, json, text "\x7b\"ok\":true\x7d\n",
    [(text "Set-Cookie", d.cookieName ++ text "=" ++ cookieAttrs req ++ text "; Max-Age=0")], none⟩, s)

/-- A poller counts as a client; one that was not there wakes the loop. -/
def polled (s : RouterState Alert) : RouterState Alert :=
  let prev := s.lastPollNs
  let s := { s with lastPollNs := reads.pollNow }
  if (prev = 0 ∨ reads.pollNow < prev ∨ reads.pollNow - prev > d.pollerWindowNs) ∧ d.wake then
    { s with wakes := s.wakes + 1 }
  else s

def samples (s : RouterState Alert) : HttpResponse × RouterState Alert :=
  match d.authed reads req s with
  | (false, s) => (unauthenticated, s)
  | (true, s) =>
      let s := d.polled reads s
      let last := queryU64 req.query (text "last") 0
      let last := if last = 0 then kCatchupSamples else last
      let count := if last < s.hot.size then last else s.hot.size
      (⟨200, json, d.samplesToJson (s.hot.dumpLast count) (some (s.latestDetail.getD [])), [], none⟩, s)

def kMaxLimit : Nat := 5000

def rangeOf (s : RouterState Alert) : Except HttpResponse (List Sample) :=
  let tier := queryU64 req.query (text "tier") 1
  let limit := queryU64 req.query (text "limit") kMaxLimit
  let tier := if tier < 1 ∨ tier > 3 then 1 else tier
  let limit := if limit = 0 ∨ limit > kMaxLimit then kMaxLimit else limit
  let window : Storage.Window :=
    ⟨queryU64 req.query (text "since") 0, queryU64 req.query (text "until") 0, limit⟩
  let level := queryStr req.query (text "level")
  let found (out : Option (List Sample)) : Except HttpResponse (List Sample) :=
    out.elim (.error ⟨400, json, text "\x7b\"error\":\"bad range query\"\x7d\n", [], none⟩) .ok
  if level = text "all" then found ((s.tm.queryAll d.sort window).map fun picks => picks.map Storage.Pick.sample)
  else if level ≠ [] then
    match s.sched.levelByName level with
    | none => .error ⟨404, json, text "\x7b\"error\":\"unknown level\"\x7d\n", [], none⟩
    | some lv => found (s.tm.queryLevel lv window)
  else found (s.tm.query tier window)

def range (s : RouterState Alert) : HttpResponse × RouterState Alert :=
  match d.authed reads req s with
  | (false, s) => (unauthenticated, s)
  | (true, s) =>
      match d.rangeOf req s with
      | .error r => (r, s)
      | .ok out => (⟨200, json, d.samplesToJson out none, [], none⟩, s)

def alerts (s : RouterState Alert) : HttpResponse × RouterState Alert :=
  match d.authed reads req s with
  | (false, s) => (unauthenticated, s)
  | (true, s) => (⟨200, json, d.alertsToJson (s.recentAlerts.getD []), [], none⟩, s)

def boolText (b : Bool) : Bytes := text (if b then "true" else "false")

/-- One row of the level table; the buffer of its first part holds 255 bytes. -/
def levelRow (t : LevelTable) (lv : Level) (builtin : Bool) : Bytes :=
  (text "\x7b\"id\":" ++ decimal lv.toNat ++ text ",\"name\":\"" ++ t.levelName lv ++ text "\",\"interval_ms\":" ++
    decimalInt (Scheduler.intervalMs t.cfg lv) ++ text ",\"priority\":" ++ decimalInt (Scheduler.priority t.cfg lv) ++
    text ",\"builtin\":" ++ boolText builtin ++ text ",\"collects\":" ++ boolText (t.collects lv) ++
    text ",\"metrics\":[").take 255 ++
  (text ",").intercalate ((t.metricNames lv).map fun name => text "\"" ++ name ++ text "\"") ++ text "]\x7d"

def levelsBody (t : LevelTable) : Bytes :=
  text "[" ++ (text ",").intercalate
    ([levelRow t Level.L1 true, levelRow t Level.L2 true, levelRow t Level.L3 true] ++
      t.cfg.customLevels.map fun c => levelRow t c.id false) ++ text "]\n"

def levels (s : RouterState Alert) : HttpResponse × RouterState Alert :=
  match d.authed reads req s with
  | (false, s) => (unauthenticated, s)
  | (true, s) => (⟨200, json, levelsBody s.sched, [], none⟩, s)

def kMaxClients : Nat := 64

def websocket (s : RouterState Alert) : HttpResponse × RouterState Alert :=
  if !isWebsocketUpgrade req then (⟨400, plain, text "expected websocket upgrade\n", [], none⟩, s)
  else if !sameOrigin req then (⟨403, plain, text "cross-origin websocket refused\n", [], none⟩, s)
  else
    match d.authed reads req s with
    | (false, s) => (⟨401, plain, text "unauthenticated\n", [], none⟩, s)
    | (true, s) =>
        if s.ws.clients.length ≥ kMaxClients then (⟨503, plain, text "too many websocket clients\n", [], none⟩, s)
        else
          let session := if d.authEnabled then d.token req else []
          (⟨200, [], [], [], some ⟨wsHandshakeResponse (req.header (text "Sec-WebSocket-Key")), session⟩⟩, s)

def isLogin : Bool := req.method = text "POST" && req.path = text "/api/auth/login"

/-- The handler `make_router` returns. -/
def route (s : RouterState Alert) : HttpResponse × RouterState Alert :=
  let get := req.method = text "GET"
  if !d.ownHost req (isLogin req) then
    (⟨403, plain, text "budyk: this Host is not one of budyk's names; add it to web.allowed_hosts\n", [], none⟩, s)
  else if get ∧ (req.path = text "/" ∨ req.path = text "/index.html") then (d.index, s)
  else if get ∧ req.path = text "/api/health" then (d.health, s)
  else if isLogin req then d.login reads req s
  else if req.method = text "POST" ∧ req.path = text "/api/auth/logout" then d.logout req s
  else if get ∧ req.path = text "/api/samples" then d.samples reads req s
  else if get ∧ req.path = text "/api/range" then d.range reads req s
  else if get ∧ req.path = text "/api/alerts" then d.alerts reads req s
  else if get ∧ req.path = text "/api/levels" then d.levels reads req s
  else if req.path = text "/api/ws" then d.websocket reads req s
  else (⟨404, plain, text "not found\n", [], none⟩, s)

end RouterDeps

end Budyk.Daemon
