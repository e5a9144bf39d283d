import Mathlib.Data.List.TakeWhile
import Budyk.Web.Http

/-! The values of a query and of a cookie header, by their pieces. -/

namespace Budyk.Spec
open Lib Web

/-- What follows `needle` in a piece that, less what `skip` passes over, starts with it. -/
def pieceValue (skip : UInt8 → Bool) (needle piece : Bytes) : Option Bytes :=
  let piece := piece.dropWhile skip
  if needle.isPrefixOf piece then some (piece.drop needle.length) else none

def splitValue (sep : UInt8) (skip : UInt8 → Bool) (needle s : Bytes) : Option Bytes :=
  (s.splitOn sep).findSome? (pieceValue skip needle)

/-- What stands behind each separator, to the end. -/
def afterSeparators (sep : UInt8) : Bytes → List Bytes
  | [] => []
  | b :: rest => if b = sep then rest :: afterSeparators sep rest else afterSeparators sep rest

/-- The same for a needle that holds the separator: it is looked for where the pieces begin, across their ends. -/
def acrossValue (sep : UInt8) (skip : UInt8 → Bool) (needle s : Bytes) : Option Bytes :=
  (s :: afterSeparators sep s).findSome? (pieceValue skip needle)

def queryValue (query key : Bytes) : Option Bytes := splitValue 38 (fun _ => false) (key ++ [61]) query

def querySplitU64 (query key : Bytes) (fallback : Nat) : Nat :=
  match queryValue query key with
  | none => fallback
  | some val => if val = [] ∨ ¬val.all isDigit then fallback else min (digitsValue val) (2 ^ 64 - 1)

def queryAcross (query key : Bytes) : Option Bytes := acrossValue 38 (fun _ => false) (key ++ [61]) query

def cookieSplit (header name : Bytes) : Bytes := (splitValue 59 blank (name ++ [61]) header).getD []

def cookieAcross (header name : Bytes) : Option Bytes := acrossValue 59 blank (name ++ [61]) header

end Budyk.Spec
