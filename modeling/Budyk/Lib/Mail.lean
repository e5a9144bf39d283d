import Budyk.Lib.Base64
import Budyk.Lib.Utf8

/-! Mail as it is sent: lines that end in CR LF (RFC 5322), and words of a header line that stand for other text
(RFC 2047). -/

namespace Budyk.Lib

/-- Every CR is followed by LF, and every LF preceded by CR. -/
def CrlfOnly (s : List UInt8) : Prop :=
  s[0]? ≠ some newline ∧ ∀ i, s[i]? = some carriageReturn ↔ s[i + 1]? = some newline

/-- Without a line's end. -/
def OneLine (s : List UInt8) : Prop := ∀ b ∈ s, b ≠ carriageReturn ∧ b ≠ newline

def mailLine (line : List UInt8) : List UInt8 := line ++ [carriageReturn, newline]

/-- The text with CR LF for each CR LF, CR alone and LF alone. -/
inductive LineEndsNormal : List UInt8 → List UInt8 → Prop
  | nil : LineEndsNormal [] []
  | crlf {s out : List UInt8} : LineEndsNormal s out →
      LineEndsNormal (carriageReturn :: newline :: s) (carriageReturn :: newline :: out)
  | cr {s out : List UInt8} : s.head? ≠ some newline → LineEndsNormal s out →
      LineEndsNormal (carriageReturn :: s) (carriageReturn :: newline :: out)
  | lf {s out : List UInt8} : LineEndsNormal s out → LineEndsNormal (newline :: s) (carriageReturn :: newline :: out)
  | other {b : UInt8} {s out : List UInt8} : b ≠ carriageReturn → b ≠ newline → LineEndsNormal s out →
      LineEndsNormal (b :: s) (b :: out)

theorem OneLine.append {first second : List UInt8} (one : OneLine first) (two : OneLine second) :
    OneLine (first ++ second) := by
  intro b held
  rcases List.mem_append.mp held with first | second
  · exact one b first
  · exact two b second

theorem oneLine_of_all {s : List UInt8} (all : (s.all fun b => b ≠ carriageReturn && b ≠ newline) = true) : OneLine s := by
  intro b held
  simpa using List.all_eq_true.mp all b held

theorem CrlfOnly.cons {b : UInt8} {s : List UInt8} (plain : b ≠ carriageReturn ∧ b ≠ newline) (rest : CrlfOnly s) :
    CrlfOnly (b :: s) := by
  refine ⟨by simpa using plain.2, fun i => ?_⟩
  cases i with
  | zero =>
      have first : s[0]? ≠ some newline := rest.1
      simp [plain.1, first]
  | succ i => simpa using rest.2 i

theorem CrlfOnly.lineEnd {s : List UInt8} (rest : CrlfOnly s) : CrlfOnly (carriageReturn :: newline :: s) := by
  refine ⟨by rw [List.getElem?_cons_zero]; decide, fun i => ?_⟩
  match i with
  | 0 => simp
  | 1 =>
      have first : s[0]? ≠ some newline := rest.1
      simp only [List.getElem?_cons_succ, List.getElem?_cons_zero, first, iff_false]
      decide
  | i + 2 => simpa using rest.2 i

theorem CrlfOnly.line {line s : List UInt8} (one : OneLine line) (rest : CrlfOnly s) : CrlfOnly (mailLine line ++ s) := by
  induction line with
  | nil => exact rest.lineEnd
  | cons b line ih =>
      exact CrlfOnly.cons (one b List.mem_cons_self) (ih fun c held => one c (List.mem_cons_of_mem _ held))

theorem crlfOnly_nil : CrlfOnly [] := ⟨by simp, by simp⟩

theorem CrlfOnly.lines {lines : List (List UInt8)} {s : List UInt8} (each : ∀ line ∈ lines, OneLine line)
    (rest : CrlfOnly s) : CrlfOnly (lines.flatMap mailLine ++ s) := by
  induction lines with
  | nil => exact rest
  | cons line lines ih =>
      rw [List.flatMap_cons, List.append_assoc]
      exact (ih fun other held => each other (List.mem_cons_of_mem _ held)).line (each line List.mem_cons_self)

theorem LineEndsNormal.crlfOnly {s out rest : List UInt8} (normal : LineEndsNormal s out) (after : CrlfOnly rest) :
    CrlfOnly (out ++ rest) := by
  induction normal with
  | nil => exact after
  | crlf _ ih | cr _ _ ih | lf _ ih => exact ih.lineEnd
  | other noCr noLf _ ih => exact ih.cons ⟨noCr, noLf⟩

/-- A word of a header line: base64 of whole characters of UTF-8. -/
structure EncodedWord where
  coded : List UInt8
  denotes : List UInt8
  decodes : base64Decode coded = some denotes
  whole : Utf8 denotes
  present : denotes ≠ []

def EncodedWord.text (word : EncodedWord) : List UInt8 := Lib.text "=?UTF-8?B?" ++ word.coded ++ Lib.text "?="

/-- The words with a space between any two. -/
def spaced : List (List UInt8) → List UInt8
  | [] => []
  | [word] => word
  | word :: next :: more => word ++ 32 :: spaced (next :: more)

end Budyk.Lib
