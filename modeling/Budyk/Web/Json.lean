import Budyk.Core.JsonText
import Budyk.Lib.Find

/-! A string read out of a request's body, from `web/json.cpp`. -/

namespace Budyk.Web
open Lib

/-- The text up to the closing quote, past escapes, and the text after it; none when it is cut off. -/
def untilQuote : List UInt8 → Option (List UInt8 × List UInt8)
  | [] => none
  | b :: rest =>
      if b = backslash then
        match rest with
        | [] => none
        | c :: rest => (untilQuote rest).map fun (content, after) => (b :: c :: content, after)
      else if b = quote then some ([], rest)
      else (untilQuote rest).map fun (content, after) => (b :: content, after)

/-- The text after the colon, when a key that stands at `kpos` stands where a key does. -/
def afterColon (body needle : List UInt8) (kpos : Nat) : Option (List UInt8) :=
  let before := ((body.take kpos).rdropWhile jsonBlank).getLast?
  if before = none ∨ before = some 123 ∨ before = some 44 then
    expect 58 (skipBlanks (body.drop (kpos + needle.length)))
  else none

/-- The search for the key from `kpos` on. -/
def findKey (body needle : List UInt8) : Nat → Nat → Option (List UInt8)
  | 0, _ => none
  | fuel + 1, kpos =>
      (findFrom needle body kpos).bind fun kpos =>
        (afterColon body needle kpos).or (findKey body needle fuel (kpos + 1))

def jsonGetString (body key : List UInt8) : Option (List UInt8) :=
  (findKey body (quote :: key ++ [quote]) (body.length + 1) 0).bind fun rest =>
    (expect quote (skipBlanks rest)).bind fun rest => (untilQuote rest).map fun (content, _) => jsonUnescape content

theorem untilQuote_escaped {content : List UInt8} (escaped : Escaped content) (rest : List UInt8) :
    untilQuote (content ++ quote :: rest) = some (content, rest) := by
  induction escaped with
  | nil =>
      rw [untilQuote.eq_def]
      rfl
  | plain noQuote noBackslash _ ih =>
      rw [untilQuote.eq_def]
      simp only [List.cons_append, noBackslash, noQuote, if_false, ih, Option.map_some]
  | escape c _ ih =>
      rw [untilQuote.eq_def]
      simp only [List.cons_append, if_true, ih, Option.map_some]

/-- A member that stands first in the object is found. -/
theorem jsonGetString_first {key content : List UInt8} (escaped : Escaped content) (rest : List UInt8) :
    jsonGetString (123 :: quote :: (key ++ quote :: 58 :: quote :: (content ++ quote :: rest))) key =
      some (jsonUnescape content) := by
  let needle := quote :: key ++ [quote]
  let after := 58 :: quote :: (content ++ quote :: rest)
  have parts : 123 :: quote :: (key ++ quote :: after) = 123 :: (needle ++ after) := by simp [needle]
  have found : findFrom needle (123 :: (needle ++ after)) 0 = some 1 := by
    have passes : ∀ k < [(123 : UInt8)].length, ¬needle <+: ([123] ++ (needle ++ after)).drop k := by
      intro k small
      obtain rfl : k = 0 := by simpa using small
      simp [needle, quote]
    exact findFrom_drop (Nat.zero_le _) (find_skip (find_here after) passes)
  have colon : afterColon (123 :: (needle ++ after)) needle 1 = some (quote :: (content ++ quote :: rest)) := by
    have skipped : (123 :: (needle ++ after)).drop (1 + needle.length) = after := by
      rw [Nat.add_comm, List.drop_succ_cons, List.drop_left]
    unfold afterColon
    rw [skipped]
    rfl
  have key_ : findKey (123 :: (needle ++ after)) needle ((123 :: (needle ++ after)).length + 1) 0 =
      some (quote :: (content ++ quote :: rest)) := by
    rw [findKey, found, Option.bind_some, colon]
    rfl
  unfold jsonGetString
  rw [parts, key_, Option.bind_some, skipBlanks_cons rfl, expect_cons, Option.bind_some, untilQuote_escaped escaped]
  rfl

end Budyk.Web
