import Budyk.Core.JsonText
import Budyk.Rules.Engine

/-! The bodies an alert is sent in, from `rules/alert.cpp`. -/

namespace Budyk.Rules
open Lib

def upperHexDigit (n : Nat) : UInt8 := if n < 10 then UInt8.ofNat (48 + n) else UInt8.ofNat (55 + n)

def unreserved (c : UInt8) : Bool :=
  (65 ≤ c && c ≤ 90) || (97 ≤ c && c ≤ 122) || (48 ≤ c && c ≤ 57) || c = 45 || c = 95 || c = 46 || c = 126

def urlEncodeByte (c : UInt8) : List UInt8 :=
  if unreserved c then [c]
  else if c = 32 then [43]
  else [37, upperHexDigit (c.toNat / 16), upperHexDigit (c.toNat % 16)]

def urlEncode (s : List UInt8) : List UInt8 := s.flatMap urlEncodeByte

def severityName : AlertSeverity → List UInt8
  | .info => text "info"
  | .warning => text "warning"
  | .critical => text "critical"

/-- Discord's colour of an embed. -/
def severityColor : AlertSeverity → List UInt8
  | .info => text "3447003"
  | .warning => text "16753920"
  | .critical => text "15158332"

def telegramPayload (sev : AlertSeverity) (chatId ruleName message : List UInt8) : List UInt8 :=
  text "\x7b\"chat_id\":\"" ++ jsonEscape chatId ++ text "\",\"text\":\"[" ++ severityName sev ++ text "] " ++
    jsonEscape ruleName ++ (if message ≠ [] then text ": " ++ jsonEscape message else []) ++ text "\"\x7d"

def twilioForm (from_ to_ ruleName message : List UInt8) : List UInt8 :=
  let body := text "[budyk] " ++ ruleName ++ if message ≠ [] then text ": " ++ message else []
  text "From=" ++ urlEncode from_ ++ text "&To=" ++ urlEncode to_ ++ text "&Body=" ++ urlEncode (utf8Sanitize body)

def discordPayload (sev : AlertSeverity) (ruleName message : List UInt8) : List UInt8 :=
  text "\x7b\"embeds\":[\x7b\"title\":\"[" ++ severityName sev ++ text "] " ++ jsonEscape ruleName ++
    text "\",\"description\":\"" ++ jsonEscape message ++ text "\",\"color\":" ++ severityColor sev ++ text "\x7d]\x7d"

/-! Mail: header lines, and the whole message. -/

def headerValue (s : List UInt8) : List UInt8 := s.map fun c => if c < 0x20 || c = 0x7f then 32 else c

def kB64 : List UInt8 := text "ABCDEFGHIJKLMNOPQRSTUVWXYZabcdefghijklmnopqrstuvwxyz0123456789+/"

def kB64At (bits : UInt32) : UInt8 := kB64.getD (bits &&& 0x3F).toNat 0

/-- The loop over a piece of the text, three bytes at a time. -/
def pieceBase64 : List UInt8 → List UInt8
  | [] => []
  | a :: piece =>
      let triple := (a.toUInt32 <<< 16) ||| ((piece.getD 0 0).toUInt32 <<< 8) ||| (piece.getD 1 0).toUInt32
      kB64At (triple >>> 18) :: kB64At (triple >>> 12) :: (if 0 < piece.length then kB64At (triple >>> 6) else 61) ::
        (if 1 < piece.length then kB64At triple else 61) :: pieceBase64 (piece.drop 2)
termination_by piece => piece.length

/-- A byte that continues a character. -/
def continues (b : UInt8) : Bool := b &&& 0xC0 = 0x80

/-- The inner loop: the length of the piece, moved back to where a character begins. -/
def splitBack (s : List UInt8) : Nat → Nat
  | 0 => 0
  | n + 1 => if 1 < n + 1 && n + 1 < s.length && continues (s.getD (n + 1) 0) then splitBack s n else n + 1

def pieceLength (s : List UInt8) : Nat := splitBack s (if s.length < 45 then s.length else 45)

theorem splitBack_pos (s : List UInt8) (n : Nat) (positive : 0 < n) : 0 < splitBack s n := by
  induction n with
  | zero => exact absurd positive (Nat.lt_irrefl 0)
  | succ n ih =>
      rw [splitBack]
      split
      next moved =>
        simp only [Bool.and_eq_true, decide_eq_true_eq] at moved
        exact ih (Nat.lt_of_succ_lt_succ moved.1.1)
      next => exact Nat.succ_pos n

theorem pieceLength_pos {s : List UInt8} (present : s ≠ []) : 0 < pieceLength s := by
  apply splitBack_pos
  have positive := List.length_pos_iff.mpr present
  split
  · exact positive
  · decide

/-- The words appended for the text that is left. -/
def appendWords (out s : List UInt8) : List UInt8 :=
  if s = [] then out
  else
    let piece := s.take (pieceLength s)
    appendWords (out ++ (if out ≠ [] then [32] else []) ++ text "=?UTF-8?B?" ++ pieceBase64 piece ++ text "?=")
      (s.drop (pieceLength s))
termination_by s.length
decreasing_by
  have positive := pieceLength_pos ‹s ≠ []›
  have length := List.length_pos_iff.mpr ‹s ≠ []›
  rw [List.length_drop]
  omega

def headerText (s : List UInt8) : List UInt8 :=
  let v := headerValue s
  if v.any fun c => 0x80 ≤ c then appendWords [] (utf8Sanitize v) else v

def crlf : List UInt8 := [carriageReturn, newline]

/-- The loop over the body. -/
def smtpBody : List UInt8 → List UInt8
  | [] => []
  | c :: rest =>
      if c = carriageReturn then
        match rest with
        | [] => crlf
        | d :: after => if d = newline then crlf ++ smtpBody after else crlf ++ smtpBody (d :: after)
      else if c = newline then crlf ++ smtpBody rest
      else c :: smtpBody rest

/-- `date` is what strftime wrote. -/
def smtpMessage (sev : AlertSeverity) (from_ to_ ruleName message date : List UInt8) : List UInt8 :=
  text "From: " ++ headerValue from_ ++ crlf ++
  text "To: " ++ headerValue to_ ++ crlf ++
  text "Subject: " ++ headerText (text "[budyk:" ++ severityName sev ++ text "] " ++ ruleName) ++ crlf ++
  text "Date: " ++ date ++ crlf ++
  text "MIME-Version: 1.0\r\n" ++
  text "Content-Type: text/plain; charset=utf-8\r\n" ++
  text "Content-Transfer-Encoding: 8bit\r\n" ++
  crlf ++ smtpBody (utf8Sanitize message) ++ crlf

end Budyk.Rules
