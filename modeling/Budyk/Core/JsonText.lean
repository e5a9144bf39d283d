import Budyk.Lib.Json

/-! The contents of JSON strings written and read, from `core/json_text.cpp`. -/

namespace Budyk
open Lib

def hex4 (h₁ h₂ h₃ h₄ : UInt8) : Nat := (hexNumber [h₁, h₂, h₃, h₄]).getD 0xfffd

def appendUtf8 (code : Nat) : List UInt8 :=
  if code < 0x80 then [UInt8.ofNat code]
  else if code < 0x800 then [UInt8.ofNat (0xc0 ||| code >>> 6), UInt8.ofNat (0x80 ||| code &&& 0x3f)]
  else if code < 0x10000 then
    [UInt8.ofNat (0xe0 ||| code >>> 12), UInt8.ofNat (0x80 ||| code >>> 6 &&& 0x3f), UInt8.ofNat (0x80 ||| code &&& 0x3f)]
  else
    [UInt8.ofNat (0xf0 ||| code >>> 18), UInt8.ofNat (0x80 ||| code >>> 12 &&& 0x3f),
      UInt8.ofNat (0x80 ||| code >>> 6 &&& 0x3f), UInt8.ofNat (0x80 ||| code &&& 0x3f)]

/-- What the first byte says: the length of the sequence, and the range of its second byte. -/
def utf8Lead (c : UInt8) : Nat × UInt8 × UInt8 :=
  if 0xc2 ≤ c ∧ c ≤ 0xdf then (2, 0x80, 0xbf)
  else if c = 0xe0 then (3, 0xa0, 0xbf)
  else if c = 0xed then (3, 0x80, 0x9f)
  else if 0xe1 ≤ c ∧ c ≤ 0xef then (3, 0x80, 0xbf)
  else if c = 0xf0 then (4, 0x90, 0xbf)
  else if 0xf1 ≤ c ∧ c ≤ 0xf3 then (4, 0x80, 0xbf)
  else if c = 0xf4 then (4, 0x80, 0x8f)
  else (0, 0x80, 0xbf)

/-- The length of the well-formed sequence the text begins with, or 0. -/
def utf8Len : List UInt8 → Nat
  | c :: second :: rest =>
      let (n, lo, hi) := utf8Lead c
      if rest.length + 2 < n ∨ second < lo ∨ hi < second then 0
      else if (rest.take (n - 2)).all fun b => 0x80 ≤ b && b ≤ 0xbf then n
      else 0
  | _ => 0

def replacement : List UInt8 := [0xef, 0xbf, 0xbd]

/-- The bytes of a sequence still to be copied are counted in the first argument. -/
def utf8SanitizeFrom : Nat → List UInt8 → List UInt8
  | _, [] => []
  | copied + 1, b :: rest => b :: utf8SanitizeFrom copied rest
  | 0, b :: rest =>
      if b < 0x80 then b :: utf8SanitizeFrom 0 rest
      else match utf8Len (b :: rest) with
        | 0 => replacement ++ utf8SanitizeFrom 0 rest
        | n + 1 => b :: utf8SanitizeFrom n rest

def utf8Sanitize (s : List UInt8) : List UInt8 := utf8SanitizeFrom 0 s

/-! The same over places in the text, with every read of it: none, where there is no such place. -/

def tailsAt (s : List UInt8) (i : Nat) : List Nat → Option Bool
  | [] => some true
  | k :: ks => s[i + k]?.bind fun b => if b < 0x80 ∨ 0xbf < b then some false else tailsAt s i ks

def utf8LenAt (s : List UInt8) (i : Nat) : Option Nat :=
  s[i]?.bind fun c =>
    let (n, lo, hi) := utf8Lead c
    if n = 0 ∨ s.length < i + n then some 0
    else s[i + 1]?.bind fun second =>
      if second < lo ∨ hi < second then some 0
      else (tailsAt s i (List.range' 2 (n - 2))).map fun tails => if tails then n else 0

def utf8SanitizeAt (s : List UInt8) (i : Nat) : Option (List UInt8) :=
  if i < s.length then
    s[i]?.bind fun c =>
      if c < 0x80 then (utf8SanitizeAt s (i + 1)).map (c :: ·)
      else (utf8LenAt s i).bind fun n =>
        if n = 0 then (utf8SanitizeAt s (i + 1)).map (replacement ++ ·)
        else (utf8SanitizeAt s (i + n)).map ((s.drop i).take n ++ ·)
  else some []
termination_by s.length - i

def lowerHexDigit (n : Nat) : UInt8 := if n < 10 then UInt8.ofNat (48 + n) else UInt8.ofNat (87 + n)

/-- `%04x` -/
def hexQuad (n : Nat) : List UInt8 :=
  [lowerHexDigit (n / 0x1000 % 16), lowerHexDigit (n / 0x100 % 16), lowerHexDigit (n / 16 % 16), lowerHexDigit (n % 16)]

def escapeByte (c : UInt8) : List UInt8 :=
  if c = quote then [backslash, quote]
  else if c = backslash then [backslash, backslash]
  else if c = 8 then [backslash, 98]
  else if c = 12 then [backslash, 102]
  else if c = newline then [backslash, 110]
  else if c = carriageReturn then [backslash, 114]
  else if c = tab then [backslash, 116]
  else if c < 0x20 then backslash :: 117 :: hexQuad c.toNat
  else [c]

def jsonEscapeFrom : Nat → List UInt8 → List UInt8
  | _, [] => []
  | copied + 1, b :: rest => b :: jsonEscapeFrom copied rest
  | 0, b :: rest =>
      if 0x80 ≤ b then
        match utf8Len (b :: rest) with
        | 0 => text "\\ufffd" ++ jsonEscapeFrom 0 rest
        | n + 1 => b :: jsonEscapeFrom n rest
      else escapeByte b ++ jsonEscapeFrom 0 rest

def jsonEscape (s : List UInt8) : List UInt8 := jsonEscapeFrom 0 s

/-- The letter after a backslash; an unknown one stands for itself. -/
def unescapeByte (c : UInt8) : UInt8 :=
  if c = 98 then 8
  else if c = 102 then 12
  else if c = 110 then newline
  else if c = 114 then carriageReturn
  else if c = 116 then tab
  else c

def jsonUnescape : List UInt8 → List UInt8
  | [] => []
  | b :: rest =>
      if b ≠ backslash then b :: jsonUnescape rest
      else match rest with
        | [] => [b]
        | c :: rest =>
            if c ≠ 117 then unescapeByte c :: jsonUnescape rest
            else match rest with
              | h₁ :: h₂ :: h₃ :: h₄ :: rest =>
                  let code := hex4 h₁ h₂ h₃ h₄
                  if 0xd800 ≤ code ∧ code ≤ 0xdbff then
                    match rest with
                    | b :: c :: l₁ :: l₂ :: l₃ :: l₄ :: after =>
                        let lo := if b = backslash ∧ c = 117 then hex4 l₁ l₂ l₃ l₄ else 0
                        if 0xdc00 ≤ lo ∧ lo ≤ 0xdfff then
                          appendUtf8 (0x10000 + (code - 0xd800) <<< 10 + (lo - 0xdc00)) ++ jsonUnescape after
                        else appendUtf8 0xfffd ++ jsonUnescape (b :: c :: l₁ :: l₂ :: l₃ :: l₄ :: after)
                    | short => appendUtf8 0xfffd ++ jsonUnescape short
                  else if 0xdc00 ≤ code ∧ code ≤ 0xdfff then appendUtf8 0xfffd ++ jsonUnescape rest
                  else appendUtf8 code ++ jsonUnescape rest
              -- four digits do not fit: the backslash stands for itself
              | short => b :: c :: jsonUnescape short

end Budyk
