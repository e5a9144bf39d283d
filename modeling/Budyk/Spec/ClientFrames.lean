import Budyk.Web.Frames

/-! The frames a client may send (RFC 6455, section 5.2), and how its bytes may break the format. -/

namespace Budyk.Spec
open Web

inductive Opcode where
  | continuation
  | text
  | binary
  | close
  | ping
  | pong
  deriving DecidableEq

namespace Opcode

def value : Opcode → UInt8
  | continuation => 0x0
  | text => 0x1
  | binary => 0x2
  | close => 0x8
  | ping => 0x9
  | pong => 0xA

def control : Opcode → Bool
  | close | ping | pong => true
  | _ => false

end Opcode

/-- The three forms of the length; a client need not take the shortest. -/
inductive LengthForm where
  | short
  | medium
  | long

namespace LengthForm

def limit : LengthForm → Nat
  | short => 126
  | medium => 2 ^ 16
  | long => 2 ^ 64

-- The mask bit is set
def bytes : LengthForm → Nat → Bytes
  | short, len => [0x80 ||| UInt8.ofNat len]
  | medium, len => 0xFE :: bigEndian 2 len
  | long, len => 0xFF :: bigEndian 8 len

end LengthForm

structure Header where
  fin : Bool
  opcode : Opcode
  form : LengthForm
  len : Nat
  mask : Bytes
  fits : len < form.limit
  maskLength : mask.length = 4

namespace Header

def firstByte (h : Header) : UInt8 := (if h.fin then 0x80 else 0) ||| h.opcode.value

def bytes (h : Header) : Bytes := h.firstByte :: h.form.bytes h.len ++ h.mask

end Header

structure ClientFrame extends Header where
  payload : Bytes
  payloadLength : payload.length = len

namespace ClientFrame

def bytes (f : ClientFrame) : Bytes := f.toHeader.bytes ++ unmask f.mask f.payload

/-- A data frame of any length, or a ping or a pong in one piece. -/
def Accepted (f : ClientFrame) : Prop :=
  f.opcode.control → f.opcode ≠ .close ∧ f.fin = true ∧ f.len ≤ 125

def seen (f : ClientFrame) : InFrame :=
  if control : f.opcode.control ∧ f.payload.length ≤ 125 then .control f.opcode.value ⟨f.payload, control.2⟩
  else .data f.opcode.value f.len

end ClientFrame

/-- Bytes that begin with what is not a frame, or with a close frame. -/
inductive Refused : Bytes → Prop where
  | reserved (b0 b1 : UInt8) (more : Bytes) (set : b0 &&& 0x70 ≠ 0) : Refused (b0 :: b1 :: more)
  | unmasked (b0 b1 : UInt8) (more : Bytes) (clear : b1 &&& 0x80 = 0) : Refused (b0 :: b1 :: more)
  | undefined (b0 b1 : UInt8) (more : Bytes) (unknown : ∀ opcode : Opcode, opcode.value ≠ b0 &&& 0x0F) :
      Refused (b0 :: b1 :: more)
  | long (h : Header) (more : Bytes) (control : h.opcode.control) (tooLong : 125 < h.len) : Refused (h.bytes ++ more)
  | fragmented (h : Header) (more : Bytes) (control : h.opcode.control) (cut : h.fin = false) :
      Refused (h.bytes ++ more)
  | close (f : ClientFrame) (more : Bytes) (close : f.opcode = .close) : Refused (f.bytes ++ more)

def Broken (stream : Bytes) : Prop := ∃ (sent : List ClientFrame) (rest : Bytes),
  (∀ f ∈ sent, f.Accepted) ∧ stream = sent.flatMap ClientFrame.bytes ++ rest ∧ Refused rest

end Budyk.Spec
