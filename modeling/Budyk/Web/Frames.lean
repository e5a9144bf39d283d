import Mathlib.Algebra.Group.Nat.Defs
import Mathlib.Data.List.Basic

/-! The frames of `web/ws_hub.cpp`: those the hub sends, and one pass of the loop of `consume_frames`,
which reads those that clients send. -/

namespace Budyk.Web

abbrev Bytes := List UInt8

def kOpClose : UInt8 := 0x8
def kOpPing : UInt8 := 0x9
def kOpPong : UInt8 := 0xA

/-! ## Frames from the server -/

def bigEndian (count n : Nat) : Bytes :=
  (List.range count).reverse.map fun i => UInt8.ofNat ((n >>> (i * 8)) &&& 0xFF)

def wsControlFrame (opcode : UInt8) (payload : Bytes) : Bytes :=
  let len := if payload.length < 125 then payload.length else 125
  [0x80 ||| (opcode &&& 0x0F), UInt8.ofNat len] ++ payload.take len

def wsTextFrame (payload : Bytes) : Bytes :=
  let n := payload.length
  let length :=
    if n < 126 then [UInt8.ofNat n]
    else if n ≤ 0xFFFF then UInt8.ofNat 126 :: bigEndian 2 n
    else UInt8.ofNat 127 :: bigEndian 8 n
  0x81 :: length ++ payload

/-- The size of a `std::string` fits a `ptrdiff_t`. -/
abbrev Payload := { p : Bytes // p.length < 2 ^ 63 }

abbrev ControlPayload := { p : Bytes // p.length ≤ 125 }

inductive OutFrame where
  | text (payload : Payload)
  | pong (payload : ControlPayload)

namespace OutFrame

def opcode : OutFrame → UInt8
  | .text _ => 0x1
  | .pong _ => kOpPong

def payload : OutFrame → Bytes
  | .text payload => payload.val
  | .pong payload => payload.val

def bytes : OutFrame → Bytes
  | .text payload => wsTextFrame payload.val
  | .pong payload => wsControlFrame kOpPong payload.val

end OutFrame

/-! ## Frames from a client -/

-- `(len << 8) | byte` over the bytes
def bigEndianValue (bytes : Bytes) : Nat := bytes.foldl (fun len byte => len * 256 + byte.toNat) 0

def unmask (mask payload : Bytes) : Bytes := payload.mapIdx fun i byte => byte ^^^ mask.getD (i % 4) 0

theorem unmask_length (mask payload : Bytes) : (unmask mask payload).length = payload.length :=
  List.length_mapIdx

inductive InFrame where
  | control (opcode : UInt8) (payload : ControlPayload)
  | data (opcode : UInt8) (len : Nat)

inductive Parsed where
  -- `return true`: the bytes do not hold another frame yet.
  | wait (skip : Nat) (inbuf : Bytes)
  -- `return false`
  | refuse (inbuf : Bytes)
  | control (opcode : UInt8) (payload : ControlPayload) (inbuf : Bytes)
  | data (opcode : UInt8) (len : Nat) (inbuf : Bytes)

def lengthBytes (len7 : Nat) : Nat := if len7 = 126 then 2 else if len7 = 127 then 8 else 0

def declaredLength (len7 : Nat) (b : Bytes) : Nat :=
  if len7 = 126 then bigEndianValue ((b.drop 2).take 2)
  else if len7 = 127 then bigEndianValue ((b.drop 2).take 8)
  else len7

def readControl (b0 : UInt8) (hdr len : Nat) (mask b : Bytes) : Parsed :=
  if refused : len > 125 ∨ b0 &&& 0x80 = 0 then .refuse b
  else if b.length < hdr + len then .wait 0 b
  else
    have short : (unmask mask ((b.drop hdr).take len)).length ≤ 125 := by
      rw [unmask_length, List.length_take]
      omega
    .control (b0 &&& 0x0F) ⟨unmask mask ((b.drop hdr).take len), short⟩ (b.drop (hdr + len))

def readHeader (b : Bytes) : Parsed :=
  if b.length < 2 then .wait 0 b
  else
    let b0 := b.getD 0 0
    let b1 := b.getD 1 0
    let opcode := b0 &&& 0x0F
    let len7 := (b1 &&& 0x7F).toNat
    if b0 &&& 0x70 ≠ 0 ∨ b1 &&& 0x80 = 0 then .refuse b
    else if opcode > 0x2 ∧ (opcode < 0x8 ∨ opcode > 0xA) then .refuse b
    else
      let maskAt := 2 + lengthBytes len7
      if b.length < maskAt then .wait 0 b
      else
        let len := declaredLength len7 b
        let hdr := maskAt + 4
        if b.length < hdr then .wait 0 b
        else if opcode ≥ 0x8 then readControl b0 hdr len ((b.drop maskAt).take 4) b
        else .data opcode len (b.drop hdr)

def readFrame (skip : Nat) (b : Bytes) : Parsed :=
  let take := if b.length < skip then b.length else skip
  let b := b.drop take
  let skip := skip - take
  if skip > 0 then .wait skip b else readHeader b

end Budyk.Web
