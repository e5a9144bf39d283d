import Budyk.Web.Http

/-! What a request's head is to look like, said of its bytes. -/

namespace Budyk.Spec
open Lib Web

/-- A line with its ending: CR LF, or LF behind anything but a CR. -/
structure EndedLine (line ended : Bytes) : Prop where
  oneLine : newline ∉ line
  ending : ended = line ++ [carriageReturn, newline] ∨ (ended = line ++ [newline] ∧ line.getLast? ≠ some carriageReturn)

/-- The value without the whitespace around it. -/
structure Trimmed (value trimmed : Bytes) : Prop where
  around : ∃ before after, value = before ++ trimmed ++ after ∧ (∀ b ∈ before, isSpace b = true) ∧
    ∀ b ∈ after, isSpace b = true
  first : ∀ b ∈ trimmed.head?, isSpace b = false
  last : ∀ b ∈ trimmed.getLast?, isSpace b = false

/-- The target split at its first `?`. -/
def SplitTarget (target path query : Bytes) : Prop :=
  63 ∉ path ∧ (target = path ∧ query = [] ∨ target = path ++ 63 :: query)

structure RequestLine (line method path query : Bytes) : Prop where
  parts : ∃ target version, line = method ++ 32 :: (target ++ 32 :: (text "HTTP/1." ++ [version])) ∧
    target.head? = some 47 ∧ 32 ∉ target ∧ SplitTarget target path query
  named : method ≠ []
  letters : ∀ b ∈ method, 65 ≤ b ∧ b ≤ 90

structure HeaderLine (line name trimmed : Bytes) : Prop where
  parts : ∃ value, line = name ++ 58 :: value ∧ Trimmed value trimmed
  named : name ≠ []
  plain : ∀ b ∈ name, b ≠ 32 ∧ b ≠ tab ∧ b ≠ 58

/-- The header lines, up to the blank one. -/
inductive HeaderLines : Bytes → List (Bytes × Bytes) → Prop
  | blank {ended : Bytes} (line : EndedLine [] ended) : HeaderLines ended []
  | line {line ended rest name trimmed : Bytes} {headers : List (Bytes × Bytes)} (ends : EndedLine line ended)
      (header : HeaderLine line name trimmed) (more : HeaderLines rest headers) :
      HeaderLines (ended ++ rest) ((name, trimmed) :: headers)

structure RequestHead (head method path query : Bytes) (headers : List (Bytes × Bytes)) : Prop where
  lines : ∃ line ended rest, head = ended ++ rest ∧ EndedLine line ended ∧ RequestLine line method path query ∧
    HeaderLines rest headers

end Budyk.Spec
