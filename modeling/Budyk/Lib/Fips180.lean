import Mathlib.Algebra.Group.Nat.Defs
import Budyk.Lib.Blocks
import Mathlib.Data.Nat.Notation

/-! SHA-1 as FIPS 180-4 states it, on messages of whole bytes. -/

namespace Budyk.Lib.Fips180

/-! ## Words and bytes -/

def rotl (n x : UInt32) : UInt32 := (x <<< n) ||| (x >>> (32 - n))

def bigEndian (bytes : List UInt8) : Nat := bytes.foldl (fun value b => 256 * value + b.toNat) 0

def putBigEndian (n value : Nat) : List UInt8 := (List.range n).map fun i => UInt8.ofNat (value / 256 ^ (n - 1 - i))

/-! ## Functions and constants -/

def ch (x y z : UInt32) : UInt32 := (x &&& y) ^^^ (~~~x &&& z)
def parity (x y z : UInt32) : UInt32 := x ^^^ y ^^^ z
def maj (x y z : UInt32) : UInt32 := (x &&& y) ^^^ (x &&& z) ^^^ (y &&& z)

def f (t : Nat) : UInt32 → UInt32 → UInt32 → UInt32 :=
  if t ≤ 19 then ch else if t ≤ 39 then parity else if t ≤ 59 then maj else parity

def K (t : Nat) : UInt32 :=
  if t ≤ 19 then 0x5a827999 else if t ≤ 39 then 0x6ed9eba1 else if t ≤ 59 then 0x8f1bbcdc else 0xca62c1d6

/-! ## The hash -/

structure Hash where
  a : UInt32
  b : UInt32
  c : UInt32
  d : UInt32
  e : UInt32

def H0 : Hash := ⟨0x67452301, 0xefcdab89, 0x98badcfe, 0x10325476, 0xc3d2e1f0⟩

/-- The message schedule of a block. -/
def W (block : List UInt8) (t : Nat) : UInt32 :=
  if t < 16 then UInt32.ofNat (bigEndian ((block.drop (4 * t)).take 4))
  else rotl 1 (W block (t - 3) ^^^ W block (t - 8) ^^^ W block (t - 14) ^^^ W block (t - 16))

def round (block : List UInt8) (v : Hash) (t : Nat) : Hash :=
  ⟨rotl 5 v.a + f t v.b v.c v.d + v.e + K t + W block t, v.a, rotl 30 v.b, v.c, v.d⟩

def compress (h : Hash) (block : List UInt8) : Hash :=
  let v := (List.range 80).foldl (round block) h
  ⟨v.a + h.a, v.b + h.b, v.c + h.c, v.d + h.d, v.e + h.e⟩

/-- The fewest zero bytes that leave eight bytes of the last block, for the length. -/
def zeros (length : Nat) : Nat := (119 - length % 64) % 64

def pad (m : List UInt8) : List UInt8 :=
  m ++ 0x80 :: List.replicate (zeros m.length) 0 ++ putBigEndian 8 (8 * m.length)

def words (h : Hash) : List UInt32 := [h.a, h.b, h.c, h.d, h.e]

def digest (m : List UInt8) : List UInt8 :=
  (words (absorbed compress 64 H0 (pad m))).flatMap fun w => putBigEndian 4 w.toNat

end Budyk.Lib.Fips180
