import Budyk.Lib.Text
import Budyk.Web.Session
import Mathlib.Logic.Function.Basic

/-! The session table between threads (`web/session.cpp`): a call reads the clock and mints its token, then takes
`mtx_` for the table, for the path and, inside `save_mtx_`, for the snapshot; the file is replaced whole or left. -/

namespace Budyk.Web

inductive SessionAction where
  | create (random : Option (Vector UInt8 32))
  | verify (tok : Token)
  | touch (tok : Token)
  | revoke (tok : Token)
  | purgeExpired
  deriving DecidableEq

namespace SessionAction

/-- The token a call mints. -/
def minted : SessionAction → List Token
  | .create random => if newSessionToken random = [] then [] else [newSessionToken random]
  | _ => []

/-- The section that changes the table, and whether the call saves after it. -/
def section_ (s : SessionStore) (now : Nat) : SessionAction → SessionStore × Bool
  | .create random => (s.create (newSessionToken random) now, newSessionToken random ≠ [])
  | .verify tok => ((s.verify tok now).store, (s.verify tok now).save)
  | .touch tok => ((s.touch tok now).store, (s.touch tok now).save)
  | .revoke tok => s.revoke tok
  | .purgeExpired => ((s.purgeExpired now).1, false)

end SessionAction

structure SavedFile where
  credential : List UInt8
  table : Sessions
  deriving DecidableEq

/-- How far a save has come. -/
inductive SaveStage where
  | changed
  | path
  | locked
  | snapped (snap : SavedFile)
  deriving DecidableEq

inductive SessionPhase where
  | idle
  | called (action : SessionAction) (now : Nat)
  | saving (action : SessionAction) (stage : SaveStage)
  deriving DecidableEq

structure SessionThreads where
  store : SessionStore
  phase : Nat → SessionPhase
  -- the thread that holds save_mtx_
  saver : Option Nat
  -- what the last save that succeeded wrote
  file : Option SavedFile
  lastSave : Option Bool
  clock : Nat
  -- every token there has been: none is minted twice
  issued : List Token

inductive SessionEvent where
  | clock (now : Nat)
  | call (i : Nat) (action : SessionAction)
  | table (i : Nat)
  | path (i : Nat)
  | lock (i : Nat)
  | snapshot (i : Nat)
  | write (i : Nat) (ok : Bool)

namespace SessionThreads

def start (ttlSeconds : Nat) (passwordHash : List UInt8) (table : Sessions) (clock : Nat) : SessionThreads where
  store := { (SessionStore.new ttlSeconds).setCredential passwordHash with deadline := table }
  phase := fun _ => .idle
  saver := none
  file := none
  lastSave := none
  clock := clock
  issued := table.keys

def moved (s : SessionThreads) (i : Nat) (phase : SessionPhase) : SessionThreads :=
  { s with phase := Function.update s.phase i phase }

/-- An event whose thread is elsewhere, or that has to wait for `save_mtx_`, changes nothing. -/
def step (s : SessionThreads) : SessionEvent → SessionThreads
  | .clock now => { s with clock := max s.clock now }
  | .call i action =>
      match s.phase i with
      | .idle =>
          if ∃ tok ∈ action.minted, tok ∈ s.issued then s
          else { s.moved i (.called action s.clock) with issued := action.minted ++ s.issued }
      | _ => s
  | .table i =>
      match s.phase i with
      | .called action now =>
          let (store, save) := action.section_ s.store now
          { s.moved i (if save then .saving action .changed else .idle) with store := store }
      | _ => s
  | .path i =>
      match s.phase i with
      | .saving action .changed => s.moved i (.saving action .path)
      | _ => s
  | .lock i =>
      match s.phase i, s.saver with
      | .saving action .path, none => { s.moved i (.saving action .locked) with saver := some i }
      | _, _ => s
  | .snapshot i =>
      match s.phase i with
      | .saving action .locked => s.moved i (.saving action (.snapped ⟨s.store.credential, s.store.deadline⟩))
      | _ => s
  | .write i ok =>
      match s.phase i with
      | .saving _ (.snapped snap) =>
          { s.moved i .idle with
            saver := none
            file := if ok then some snap else s.file
            lastSave := some ok }
      | _ => s

def run (s : SessionThreads) (events : List SessionEvent) : SessionThreads := events.foldl step s

end SessionThreads

end Budyk.Web
