import Budyk.Lib.Text
import Budyk.Web.Frames
import Budyk.Web.Sha1Base64

/-! A request, a response and what the routes read of them (`web/server.h`, `web/http_util.cpp`, `web/ws_hub.cpp`). -/

namespace Budyk.Web
open Lib

def blank (b : UInt8) : Bool := b = 32 || b = tab

/-- `std::tolower` of the C locale. -/
def toLower (b : UInt8) : UInt8 := if 65 ≤ b && b ≤ 90 then b + 32 else b

/-- `b` is a C string. -/
def asciiIeq (a b : Bytes) : Bool := a.map toLower = (cString b).map toLower

structure HttpRequest where
  method : Bytes
  path : Bytes
  query : Bytes
  peer : Bytes
  headers : List (Bytes × Bytes)
  body : Bytes

def HttpRequest.header (req : HttpRequest) (name : Bytes) : Bytes :=
  ((req.headers.find? fun kv => asciiIeq kv.1 name).map Prod.snd).getD []

/-- The socket is taken over: the handshake to send, and the session the hub is to know the client by. -/
structure Hijack where
  handshake : Bytes
  session : Bytes
  deriving DecidableEq

structure HttpResponse where
  status : Nat
  contentType : Bytes
  body : Bytes
  extraHeaders : List (Bytes × Bytes) := []
  hijack : Option Hijack := none
  deriving DecidableEq

def afterFirst (needle : Bytes) : Bytes → Option Bytes
  | [] => if needle = [] then some [] else none
  | b :: rest => if needle.isPrefixOf (b :: rest) then some ((b :: rest).drop needle.length) else afterFirst needle rest

def asciiIcontains (hay needle : Bytes) : Bool := (afterFirst ((cString needle).map toLower) (hay.map toLower)).isSome

def beforeFirst (b : UInt8) (s : Bytes) : Bytes := s.takeWhile (· ≠ b)

/-! Cookies and queries. -/

/-- `substr` up to a difference of `size_t`s: one below zero wraps, past every end. -/
def substrUpTo (n m : Nat) (s : Bytes) : Bytes := if m ≤ n then s.take (n - m) else s

/-- What follows `needle` in the first piece that starts with it, less what `skip` passes over. Every pass takes a byte
at least. -/
def findPiece (sep : UInt8) (skip : UInt8 → Bool) (needle : Bytes) : (left : Nat) → Bytes → Option Bytes
  | 0, _ => none
  | left + 1, s =>
      if s = [] then none
      else
        let piece := beforeFirst sep s
        let start := (piece.takeWhile skip).length
        -- `compare` does not stop at the piece's end.
        if needle.isPrefixOf (s.drop start) then
          some (substrUpTo (piece.length - start) needle.length ((s.drop start).drop needle.length))
        else findPiece sep skip needle left (s.drop (piece.length + 1))

def cookieValue (cookieHeader name : Bytes) : Bytes :=
  (findPiece 59 blank (name ++ [61]) cookieHeader.length cookieHeader).getD []

def queryFind (query key : Bytes) : Option Bytes :=
  findPiece 38 (fun _ => false) (key ++ [61]) query.length query

/-- The digits read on from `out`, no further than the largest number. -/
def queryDigits (fallback : Nat) : Nat → Bytes → Nat
  | out, [] => out
  | out, c :: rest =>
      if !isDigit c then fallback
      else
        let digit := c.toNat - 48
        if out > (2 ^ 64 - 1 - digit) / 10 then 2 ^ 64 - 1 else queryDigits fallback (out * 10 + digit) rest

def queryU64 (query key : Bytes) (fallback : Nat) : Nat :=
  match queryFind query key with
  | none | some [] => fallback
  | some val => queryDigits fallback 0 val

def queryStr (query key : Bytes) : Bytes := (queryFind query key).getD []

/-! The WebSocket handshake. -/

def isWebsocketUpgrade (req : HttpRequest) : Bool :=
  req.method = text "GET" && asciiIeq (req.header (text "Upgrade")) (text "websocket") &&
    asciiIcontains (req.header (text "Connection")) (text "upgrade") &&
    req.header (text "Sec-WebSocket-Version") = text "13" && req.header (text "Sec-WebSocket-Key") ≠ []

def wsAcceptKey (key : Bytes) : Bytes := base64Encode (sha1 (key ++ text "258EAFA5-E914-47DA-95CA-C5AB0DC85B11"))

def wsHandshakeResponse (key : Bytes) : Bytes :=
  text "HTTP/1.1 101 Switching Protocols\r\nUpgrade: websocket\r\nConnection: Upgrade\r\nSec-WebSocket-Accept: " ++
    wsAcceptKey key ++ text "\r\n\r\n"

end Budyk.Web
