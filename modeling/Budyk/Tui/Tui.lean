import Budyk.Core.JsonText
import Budyk.Lib.Find
import Budyk.Lib.Numeral

/-! What the terminal client sends and reads, from `tui/tui.cpp`. -/

namespace Budyk.Tui
open Lib

def jsonQuote (s : List UInt8) : List UInt8 := quote :: jsonEscape s ++ [quote]

/-- The body of the request `login` makes. -/
def loginBody (password : List UInt8) : List UInt8 := text "\x7b\"password\":" ++ jsonQuote password ++ [125]

/-! ## The newest sample of a body -/

/-- Where the last sample begins; the start of the body where there is none. -/
def newest (body : List UInt8) : Nat := (rfind (text "\x7b\"ts\":") body).getD 0

section Numbers
variable (locale : NumberLocale) (other : List UInt8 → Option (ℚ × List UInt8))

/-- The number after the key, looked for between two places of the body. -/
def numberIn (body key : List UInt8) (fallback : ℚ) (start end_ : Nat) : ℚ :=
  let needle := quote :: key ++ text "\":"
  match findFrom needle body start with
  | none => fallback
  | some pos =>
      if pos ≥ end_ then fallback
      else
        let pos := pos + needle.length
        let blanks := ((body.drop pos).take (end_ - pos)).takeWhile fun b => b = 32 || b = tab
        match strtod locale other (body.drop (pos + blanks.length)) with
        | none => fallback
        | some (v, _) => v

/-- A section ends at its first closing brace: it is a flat object. -/
def sampleNumber (body : List UInt8) (section_ : Option (List UInt8)) (key : List UInt8) (fallback : ℚ) : ℚ :=
  match section_ with
  | none => numberIn locale other body key fallback (newest body) body.length
  | some name =>
      let opening := quote :: name ++ text "\":\x7b"
      match findFrom opening body (newest body) with
      | none => fallback
      | some at_ =>
          match findFrom [125] body (at_ + opening.length) with
          | none => fallback
          | some end_ => numberIn locale other body key fallback (at_ + opening.length) end_

/-- 1 yes, 0 no, -1 no such list. -/
def sampleInList (body key name : List UInt8) : Int :=
  match findFrom (quote :: key ++ text "\":[") body (newest body) with
  | none => -1
  | some at_ =>
      match findFrom [93] body at_ with
      | none => -1
      | some end_ =>
          match findFrom (quote :: name ++ [quote]) body at_ with
          | none => 0
          | some hit => if hit < end_ then 1 else 0

/-! ## The processes -/

structure ProcessRow where
  pid : Int := 0
  name : List UInt8 := []
  state : List UInt8 := []
  cpuPercent : ℚ := 0
  rssBytes : ℚ := 0
  deriving DecidableEq

/-- From after an opening quote: what stands before the closing one, past escapes, and what after it. -/
def stringEnd : List UInt8 → Option (List UInt8 × List UInt8)
  | [] => none
  | b :: rest =>
      if b = backslash then
        match rest with
        | [] => none
        | c :: rest => (stringEnd rest).map fun (content, after) => (b :: c :: content, after)
      else if b = quote then some ([], rest)
      else (stringEnd rest).map fun (content, after) => (b :: content, after)

def ProcessRow.setText (row : ProcessRow) (key v : List UInt8) : ProcessRow :=
  if key = text "name" then { row with name := v } else if key = text "state" then { row with state := v } else row

/-- The cast to `long` cuts the fraction off. -/
def ProcessRow.setNumber (row : ProcessRow) (key : List UInt8) (v : ℚ) : ProcessRow :=
  if key = text "pid" then { row with pid := v.num.tdiv v.den }
  else if key = text "cpu_percent" then { row with cpuPercent := v }
  else if key = text "rss_bytes" then { row with rssBytes := v }
  else row

/-- The rest of an object, and what stands after it; none when it is cut off or is none. Every turn takes a byte at
least. -/
def parseRow : Nat → List UInt8 → ProcessRow → Option (ProcessRow × List UInt8)
  | 0, _, _ => none
  | _ + 1, [], _ => none
  | turns + 1, b :: rest, row =>
      if b = 125 then some (row, rest)
      else if b = 44 ∨ b = 32 then parseRow turns rest row
      else if b ≠ quote then none
      else (stringEnd rest).bind fun (key, after) =>
        match after with
        | [] => none
        | c :: value =>
            if c ≠ 58 then none
            else if value.head? = some quote then
              (stringEnd value.tail).bind fun (content, after) =>
                parseRow turns after (row.setText key (jsonUnescape content))
            else (strtod locale other value).bind fun (v, after) => parseRow turns after (row.setNumber key v)

/-- The objects of the list; none of them where it is cut off. -/
def parseRows : Nat → List UInt8 → List ProcessRow → List ProcessRow
  | 0, _, _ => []
  | turns + 1, s, rows =>
      match s.dropWhile fun b => b = 44 || b = 32 with
      | [] => []
      | b :: rest =>
          if b = 93 then rows
          else if b ≠ 123 then []
          else match parseRow locale other (rest.length + 1) rest {} with
            | none => []
            | some (row, after) => parseRows turns after (rows ++ [row])

def parseProcesses (body : List UInt8) : List ProcessRow :=
  match find (text "\"processes\":[") body with
  | none => []
  | some at_ => parseRows locale other (body.length + 1) (body.drop (at_ + 13)) []

end Numbers

end Budyk.Tui
