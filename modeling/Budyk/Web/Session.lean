import Budyk.Lib.Text
import Budyk.Web.Sha1Base64
import Mathlib.Data.List.AList

/-! The session table and its file (`web/session.cpp`). A function here is one critical section of the
source; the clock reading it was entered with is an argument. -/

namespace Budyk.Web
open Lib

abbrev Token := List UInt8

/-- `deadline_`: each token's expiry, in nanoseconds. -/
abbrev Sessions := AList fun _ : Token => Nat

def kHex : List UInt8 := text "0123456789abcdef"

/-- `new_session_token`: the random bytes in hex, or empty when there were none to be had. -/
def newSessionToken : Option (Vector UInt8 32) → Token
  | none => []
  | some buf => buf.toList.flatMap fun (b : UInt8) => [kHex.getD (b >>> 4).toNat 0, kHex.getD (b &&& 0xF).toNat 0]

structure SessionStore where
  ttlNs : Nat
  deadline : Sessions
  -- a fingerprint of the password hash, empty for none
  credential : List UInt8

/-- The answer of `verify` and `touch`, and whether the table changed in a way that is saved. -/
structure Checked where
  store : SessionStore
  ok : Bool
  save : Bool

namespace SessionStore

def new (ttlSeconds : Nat) : SessionStore := ⟨ttlSeconds * 1000000000, ∅, []⟩

def setCredential (s : SessionStore) (passwordHash : List UInt8) : SessionStore :=
  { s with credential := if passwordHash = [] then [] else base64Encode (sha1 passwordHash) }

def create (s : SessionStore) (tok : Token) (now : Nat) : SessionStore :=
  if tok = [] then s else { s with deadline := s.deadline.insert tok (now + s.ttlNs) }

def verify (s : SessionStore) (tok : Token) (now : Nat) : Checked :=
  if tok = [] then ⟨s, false, false⟩
  else
    match s.deadline.lookup tok with
    | none => ⟨s, false, false⟩
    | some d =>
        if d ≤ now then ⟨{ s with deadline := s.deadline.erase tok }, false, true⟩
        else if d > now + s.ttlNs then ⟨{ s with deadline := s.deadline.insert tok (now + s.ttlNs) }, true, false⟩
        else ⟨s, true, false⟩

def touch (s : SessionStore) (tok : Token) (now : Nat) : Checked :=
  if tok = [] then ⟨s, false, false⟩
  else
    match s.deadline.lookup tok with
    | none => ⟨s, false, false⟩
    | some d =>
        if d ≤ now then ⟨{ s with deadline := s.deadline.erase tok }, false, true⟩
        else
          let fresh := now + s.ttlNs
          if (fresh > d ∧ fresh - d ≥ s.ttlNs / 8) ∨ d > fresh then
            ⟨{ s with deadline := s.deadline.insert tok fresh }, true, true⟩
          else ⟨s, true, false⟩

def revoke (s : SessionStore) (tok : Token) : SessionStore × Bool :=
  ({ s with deadline := s.deadline.erase tok }, (s.deadline.lookup tok).isSome)

def purgeExpired (s : SessionStore) (now : Nat) : SessionStore × Nat :=
  let kept := s.deadline.entries.filter fun kv => ¬kv.2 ≤ now
  ({ s with deadline := ⟨kept, s.deadline.nodupKeys.sublist List.filter_sublist⟩ },
    s.deadline.entries.length - kept.length)

end SessionStore

/-! The file. -/

def kCredentialLine : List UInt8 := text "# credential "

def sessionLine (kv : Sigma fun _ : Token => Nat) : List UInt8 := cString kv.1 ++ tab :: decimal kv.2

def sessionsFile (credential : List UInt8) (table : Sessions) : List UInt8 :=
  text "# budyk sessions v2\n" ++ (if credential ≠ [] then kCredentialLine ++ credential ++ [newline] else []) ++
    text "# token\tdeadline_ns\n" ++ table.entries.flatMap fun kv => sessionLine kv ++ [newline]

structure LoadedFile where
  credential : List UInt8
  got : Sessions

/-- A line of `token`, tab and deadline; the deadline is what `strtoull` makes of it. -/
def parseSession (line : List UInt8) : Option (Token × Nat) :=
  let p := cString line
  if tab ∉ p then none
  else
    match strtoull (p.dropWhile (· ≠ tab)).tail with
    | none => none
    | some (dl, _) => if p.takeWhile (· ≠ tab) = [] then none else some (p.takeWhile (· ≠ tab), dl.toNat)

def loadSessionLine (ttlNs now : Nat) (file : LoadedFile) (line : List UInt8) : LoadedFile :=
  if line.head? = some 35 then
    if line.take 13 = kCredentialLine then { file with credential := stripEnd (cString (line.drop 13)) } else file
  else if line.head? = some newline then file
  else
    match parseSession line with
    | none => file
    | some (tok, dl) =>
        if dl ≤ now then file else { file with got := file.got.insert tok (if dl > now + ttlNs then now + ttlNs else dl) }

def readSessions (ttlNs now : Nat) (file : List UInt8) : LoadedFile :=
  (fgetsLines 256 file).foldl (loadSessionLine ttlNs now) ⟨[], ∅⟩

/-- What opening and reading the file comes to. -/
inductive SessionsFile where
  | missing
  | unreadable (errno : Nat)
  | bytes (file : List UInt8)

namespace SessionStore

/-- The result, whether sessions of another credential were left out, and the table. -/
def load (s : SessionStore) (file : SessionsFile) (now : Nat) : Int × Bool × SessionStore :=
  match file with
  | .missing => (0, false, s)
  | .unreadable errno => (-errno, false, s)
  | .bytes file =>
      let read := readSessions s.ttlNs now file
      if s.credential ≠ [] ∧ read.credential ≠ s.credential then (0, !read.got.entries.isEmpty, s)
      else (0, false, { s with deadline := read.got.entries.foldl (fun t kv => t.insert kv.1 kv.2) s.deadline })

end SessionStore

end Budyk.Web
