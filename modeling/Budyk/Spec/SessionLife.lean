import Budyk.Lib.Along
import Budyk.Web.Session

/-! A session's life, said of the calls that made the table what it is. -/

namespace Budyk.Spec
open Lib Web

inductive SessionOp where
  | create (random : Option (Vector UInt8 32))
  | verify (tok : Token)
  | touch (tok : Token)
  | revoke (tok : Token)
  | purgeExpired
  | load (file : SessionsFile)

structure SessionCall where
  now : Nat
  op : SessionOp

namespace SessionCall

def apply (s : SessionStore) (call : SessionCall) : SessionStore :=
  match call.op with
  | .create random => s.create (newSessionToken random) call.now
  | .verify tok => (s.verify tok call.now).store
  | .touch tok => (s.touch tok call.now).store
  | .revoke tok => (s.revoke tok).1
  | .purgeExpired => (s.purgeExpired call.now).1
  | .load file => (s.load file call.now).2.2

/-- What the file gives the token, if it is taken at all. -/
def loaded (s : SessionStore) (file : SessionsFile) (now : Nat) (tok : Token) : Option Nat :=
  match file with
  | .missing | .unreadable _ => none
  | .bytes file =>
      let read := readSessions s.ttlNs now file
      if s.credential ≠ [] ∧ read.credential ≠ s.credential then none else read.got.lookup tok

def Creates (call : SessionCall) (tok : Token) : Prop :=
  ∃ random, call.op = .create random ∧ tok = newSessionToken random ∧ tok ≠ []

def Loads (tok : Token) (s : SessionStore) (call : SessionCall) : Prop :=
  ∃ file, call.op = .load file ∧ (loaded s file call.now tok).isSome

def Touches (tok : Token) (s : SessionStore) (call : SessionCall) : Prop :=
  call.op = .touch tok ∧ (s.touch tok call.now).ok

def Begins (tok : Token) (s : SessionStore) (call : SessionCall) : Prop := call.Creates tok ∨ Loads tok s call

def Ends (tok : Token) (s : SessionStore) (call : SessionCall) : Prop :=
  call.op = .revoke tok ∨
    (call.op = .verify tok ∨ call.op = .touch tok ∨ call.op = .purgeExpired) ∧ ∃ d ∈ s.deadline.lookup tok, d ≤ call.now

/-- The session's time is counted from this call on. -/
def Refreshes (tok : Token) (s : SessionStore) (call : SessionCall) : Prop := Begins tok s call ∨ Touches tok s call

/-- Every `verify` and `touch` of the token is answered with true. -/
def Accepted (tok : Token) (s : SessionStore) (call : SessionCall) : Prop :=
  (call.op = .verify tok → (s.verify tok call.now).ok) ∧ (call.op = .touch tok → (s.touch tok call.now).ok)

end SessionCall

/-- From the time `t` of its creation or of a touch on the token is touched at least every 7/8 of the TTL, and not
revoked. -/
def TouchedOften (tok : Token) : Nat → SessionStore → List SessionCall → Prop
  | _, _, [] => True
  | t, s, call :: rest =>
      (t ≤ call.now ∧ 8 * (call.now - t) ≤ 7 * s.ttlNs) ∧ call.op ≠ .revoke tok ∧
      (((call.op = .touch tok ∨ call.Creates tok) ∧ TouchedOften tok call.now (call.apply s) rest) ∨
        (¬(call.op = .touch tok ∨ call.Creates tok) ∧ TouchedOften tok t (call.apply s) rest))

/-- From the time `t` of its creation or of a touch on the token is touched at least every 7/8 of the TTL, and
neither revoked nor loaded over with a deadline that these touches outlast. -/
def KeptUp (tok : Token) : Nat → SessionStore → List SessionCall → Prop
  | _, _, [] => True
  | t, s, call :: rest =>
      (t ≤ call.now ∧ 8 * (call.now - t) ≤ 7 * s.ttlNs) ∧ call.op ≠ .revoke tok ∧
      (∀ file, call.op = .load file → ∀ d ∈ SessionCall.loaded s file call.now tok, t + s.ttlNs - s.ttlNs / 8 < d) ∧
      (((call.op = .touch tok ∨ call.Creates tok) ∧ KeptUp tok call.now (call.apply s) rest) ∨
        (¬(call.op = .touch tok ∨ call.Creates tok) ∧ KeptUp tok t (call.apply s) rest))

end Budyk.Spec
