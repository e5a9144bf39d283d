import Budyk.Web.Frames

/-! How the peer reads the frames of a server (RFC 6455, section 5.2): final, unmasked, no reserved bit, and
the length in the shortest of its three forms. -/

namespace Budyk.Spec
open Web

def serverLength : Bytes → Option (Nat × Bytes)
  | [] => none
  | b1 :: rest =>
      if b1 < 126 then some (b1.toNat, rest)
      else if b1 = 126 then
        let len := bigEndianValue (rest.take 2)
        if rest.length < 2 ∨ len < 126 then none else some (len, rest.drop 2)
      else if b1 = 127 then
        let len := bigEndianValue (rest.take 8)
        if rest.length < 8 ∨ len ≤ 0xFFFF ∨ 2 ^ 63 ≤ len then none else some (len, rest.drop 8)
      -- masked
      else none

def serverFrame : Bytes → Option ((UInt8 × Bytes) × Bytes)
  | [] => none
  | b0 :: rest =>
      if b0 &&& 0xF0 ≠ 0x80 then none
      else
        match serverLength rest with
        | none => none
        | some (len, rest) =>
            if rest.length < len then none else some ((b0 &&& 0x0F, rest.take len), rest.drop len)

def serverFrames : (bound : Nat) → Bytes → List (UInt8 × Bytes) × Bytes
  | 0, b => ([], b)
  | bound + 1, b =>
      match serverFrame b with
      | none => ([], b)
      | some (frame, rest) => (frame :: (serverFrames bound rest).1, (serverFrames bound rest).2)

def parseServer (b : Bytes) : List (UInt8 × Bytes) × Bytes := serverFrames b.length b

end Budyk.Spec
