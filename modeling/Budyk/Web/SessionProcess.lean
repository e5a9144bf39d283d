import Budyk.Web.Session

/-! The session table of one daemon process after another, over one file (`daemon/serve.cpp`). Calls come one
at a time here, every save succeeds, and a restart is under the same credential. -/

namespace Budyk.Web

structure SessionProcess where
  store : SessionStore
  -- the table as last saved; none before the first save
  saved : Option Sessions

inductive ProcessOp where
  | create (random : Option (Vector UInt8 32))
  | verify (tok : Token)
  | touch (tok : Token)
  | revoke (tok : Token)
  | purgeExpired
  | restart
  deriving DecidableEq

structure ProcessStep where
  now : Nat
  op : ProcessOp
  deriving DecidableEq

namespace SessionProcess

def start (ttlSeconds : Nat) (passwordHash : List UInt8) : SessionProcess :=
  ⟨(SessionStore.new ttlSeconds).setCredential passwordHash, none⟩

def autosave (p : SessionProcess) : SessionProcess := { p with saved := some p.store.deadline }

def savedFile (p : SessionProcess) : SessionsFile :=
  match p.saved with
  | none => .missing
  | some table => .bytes (sessionsFile p.store.credential table)

def checked (p : SessionProcess) (c : Checked) : SessionProcess :=
  if c.save then autosave { p with store := c.store } else { p with store := c.store }

def step (p : SessionProcess) (s : ProcessStep) : SessionProcess :=
  match s.op with
  | .create random =>
      let tok := newSessionToken random
      if tok = [] then p else autosave { p with store := p.store.create tok s.now }
  | .verify tok => p.checked (p.store.verify tok s.now)
  | .touch tok => p.checked (p.store.touch tok s.now)
  | .revoke tok =>
      let (store, removed) := p.store.revoke tok
      if removed then autosave { p with store := store } else { p with store := store }
  | .purgeExpired => { p with store := (p.store.purgeExpired s.now).1 }
  | .restart => { p with store := ({ p.store with deadline := ∅ }.load p.savedFile s.now).2.2 }

def run (p : SessionProcess) (steps : List ProcessStep) : SessionProcess := steps.foldl step p

end SessionProcess

end Budyk.Web
