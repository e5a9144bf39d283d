import Budyk.Web.Http

/-! One connection of the HTTP server, from `web/server.cpp`: what `recv` gives, the header block, and the body. -/

namespace Budyk.Web
open Lib

def kHeaderReadCap : Nat := 16 * 1024
def kMaxBodyBytes : Nat := 64 * 1024

/-- What a client sends until its end of the connection closes, or until no more comes in time. The calls of `recv`
find `pace` bytes there, one more than each number says, and all there is once the list is used up. -/
structure Connection where
  pending : Bytes
  pace : List Nat
  closes : Bool

namespace Connection

/-- `recv_bounded`; none when a deadline passes, no bytes at the end of the stream. -/
def recv (cap : Nat) (c : Connection) : Option (Bytes × Connection) :=
  if c.pending = [] then if c.closes then some ([], c) else none
  else
    let n := (c.pace.head?.map fun k => min cap (k + 1)).getD cap
    some (c.pending.take n, ⟨c.pending.drop n, c.pace.tail, c.closes⟩)

inductive Recv (cap : Nat) (c : Connection) : Option (Bytes × Connection) → Prop
  | stalled : c.pending = [] → c.closes = false → Recv cap c none
  | ended : c.pending = [] → c.closes = true → Recv cap c (some ([], c))
  | chunk {chunk : Bytes} {rest : Connection} : chunk ≠ [] → chunk.length ≤ cap → c.pending = chunk ++ rest.pending →
      rest.closes = c.closes → Recv cap c (some (chunk, rest))

theorem recv_cases {cap : Nat} (positive : 0 < cap) (c : Connection) : Recv cap c (c.recv cap) := by
  unfold recv
  split
  next empty =>
    split
    next closes => exact .ended empty closes
    next stalls => exact .stalled empty (by simpa using stalls)
  next present =>
    have length := List.length_pos_iff.mpr present
    have part : ∀ n, 0 < n → n ≤ cap → Recv cap c (some (c.pending.take n, ⟨c.pending.drop n, c.pace.tail, c.closes⟩)) := by
      intro n least most
      refine .chunk ?_ ((List.length_take_le n _).trans most) (List.take_append_drop n _).symm rfl
      rw [← List.length_pos_iff, List.length_take]
      omega
    cases c.pace.head? with
    | none => exact part cap positive le_rfl
    | some k => exact part _ (lt_min positive k.succ_pos) (min_le_left _ _)

theorem recv_shrinks {cap : Nat} (positive : 0 < cap) {c rest : Connection} {chunk : Bytes}
    (received : c.recv cap = some (chunk, rest)) (present : chunk ≠ []) : rest.pending.length < c.pending.length := by
  have ways := recv_cases positive c
  rw [received] at ways
  cases ways with
  | ended => exact absurd rfl present
  | chunk _ _ whole _ =>
      have length := List.length_pos_iff.mpr present
      rw [whole, List.length_append]
      omega

end Connection

/-! The header block. -/

/-- Where the first blank line ends. -/
def blankLineEnd : Bytes → Option Nat
  | b :: next :: rest =>
      if b = newline ∧ next = newline then some 2
      else if b = newline ∧ next = carriageReturn ∧ rest.head? = some newline then some 3
      else (blankLineEnd (next :: rest)).map (· + 1)
  | _ => none

def findHeaderEnd (b : Bytes) (start : Nat) : Option Nat := (blankLineEnd (b.drop start)).map (start + ·)

inductive HeadRead
  | stalled
  | ended
  | tooLarge
  | found (hdrEnd : Nat) (buf : Bytes) (rest : Connection)

/-- Each search covers the new chunk and the two bytes before it. -/
def readUntilHeaders (c : Connection) (buf : Bytes) : HeadRead :=
  if buf.length < kHeaderReadCap then
    match received : c.recv 1024 with
    | none => .stalled
    | some (chunk, rest) =>
        if ended : chunk = [] then .ended
        else
          match findHeaderEnd (buf ++ chunk) (buf.length - 2) with
          | some hdrEnd => .found hdrEnd (buf ++ chunk) rest
          | none =>
              have := Connection.recv_shrinks (by decide) received ended
              readUntilHeaders rest (buf ++ chunk)
  else .tooLarge
termination_by c.pending.length

def splitFirst (b : UInt8) (s : Bytes) : Option (Bytes × Bytes) :=
  if b ∈ s then some (beforeFirst b s, (s.dropWhile (· ≠ b)).tail) else none

def withoutReturn (line : Bytes) : Bytes := if line.getLast? = some carriageReturn then line.dropLast else line

def headLines (head : Bytes) : List Bytes := (head.splitOn newline).dropLast.map withoutReturn

def trim (s : Bytes) : Bytes := (s.dropWhile isSpace).rdropWhile isSpace

def splitTarget (target : Bytes) : Bytes × Bytes := (splitFirst 63 target).getD (target, [])

def parseRequestLine (rl : Bytes) : Option (Bytes × Bytes × Bytes) := do
  let (method, rest) ← splitFirst 32 rl
  let (target, version) ← splitFirst 32 rest
  if method = [] ∨ target = [] then none
  else if version.take 7 ≠ text "HTTP/1." ∨ version.length ≠ 8 then none
  else if !method.all fun c => 65 ≤ c && c ≤ 90 then none
  else if target.head? ≠ some 47 then none
  else some (method, splitTarget target)

def parseHeaderLine (line : Bytes) : Option (Bytes × Bytes) := do
  -- obsolete folding
  if line.head?.any blank then none
  let (key, value) ← splitFirst 58 line
  if key = [] ∨ key.any blank then none else some (key, trim value)

def parseHeaders (peer head : Bytes) : Option HttpRequest := do
  let lines := headLines head
  if lines.length < 2 ∨ lines.getLast? ≠ some [] then none
  let (method, path, query) ← parseRequestLine (lines.headD [])
  let headers ← lines.tail.dropLast.mapM parseHeaderLine
  some { method, path, query, peer, headers, body := [] }

/-! The body. -/

def readFull (c : Connection) (want : Nat) : Option Bytes :=
  if positive : want = 0 then some []
  else
    match received : c.recv want with
    | none => none
    | some (chunk, rest) =>
        if ended : chunk = [] then some []
        else
          have := Connection.recv_shrinks (Nat.pos_of_ne_zero positive) received ended
          (readFull rest (want - chunk.length)).map (chunk ++ ·)
termination_by c.pending.length

/-- The length the headers declare, `value` being what those before have said. -/
def declaredLengthFrom : Option Nat → List (Bytes × Bytes) → Option Nat
  | value, [] => some (value.getD 0)
  | value, (key, v) :: rest =>
      if !asciiIeq key (text "Content-Length") then declaredLengthFrom value rest
      else if v = [] ∨ v.length > 18 ∨ !v.all isDigit then none
      else if value.any (· ≠ digitsValue v) then none
      else declaredLengthFrom (some (digitsValue v)) rest

def HttpRequest.declaredLength (req : HttpRequest) : Option Nat := declaredLengthFrom none req.headers

inductive Handling
  | closed
  | answer (response : HttpResponse)
  | handler (req : HttpRequest)

def refuse (status : Nat) (why : Bytes) : Handling := .answer { status, contentType := text "text/plain", body := why }

/-- Up to the call of the handler, which answers what it is given. -/
def handleClient (peer : Bytes) (c : Connection) : Handling :=
  match readUntilHeaders c [] with
  | .tooLarge => refuse 431 (text "request headers too large\n")
  | .stalled | .ended => .closed
  | .found hdrEnd buf rest =>
      match parseHeaders peer (buf.take hdrEnd) with
      | none => refuse 400 (text "bad request\n")
      | some req =>
          let body := buf.drop hdrEnd
          if req.header (text "Transfer-Encoding") ≠ [] then refuse 501 (text "transfer-encoding not supported\n")
          else
            match req.declaredLength with
            | none => refuse 400 (text "bad content-length\n")
            | some want =>
                if want > kMaxBodyBytes then refuse 413 (text "body too large\n")
                else if body.length < want then
                  match readFull rest (want - body.length) with
                  | none => .closed
                  | some got => .handler { req with body := body ++ got }
                else .handler { req with body := body.take want }

end Budyk.Web
