import Budyk.Lib.Backtrack
import Budyk.Rules.LuaPattern

/-! What a pattern is, as a list of items, and what it matches: the ways through a subject in the order of their
preference, and the matches with no order. -/

namespace Budyk.Spec.LuaPattern
open Lib Rules.LuaPattern

/-! ## Classes -/

inductive Member
  | byte (b : UInt8)
  | range (least most : UInt8)
  | named (letter : UInt8)
  deriving DecidableEq

def Member.holds (c : UInt8) : Member → Bool
  | .byte b => b = c
  | .range least most => least ≤ c && c ≤ most
  | .named letter => matchClass c letter

def members : List UInt8 → List Member
  | [] => []
  | [b] => [if b = escape then .named bracketClose else .byte b]
  | [b, d] => if b = escape then [.named d] else .byte b :: members [d]
  | b :: d :: e :: p =>
      if b = escape then .named d :: members (e :: p)
      else if d = 45 then .range b e :: members p
      else .byte b :: members (d :: e :: p)

inductive CharClass
  | any
  | byte (b : UInt8)
  | named (letter : UInt8)
  | set (negated : Bool) (members : List Member)
  deriving DecidableEq

def CharClass.holds (c : UInt8) : CharClass → Bool
  | .any => true
  | .byte b => b = c
  | .named letter => matchClass c letter
  | .set negated members => members.any (Member.holds c) != negated

/-- The class between `[` and `]`. -/
def bracketSet (inside : List UInt8) : CharClass :=
  if inside.head? = some caret then .set true (members inside.tail) else .set false (members inside)

/-- The class at the head of `p`, which `ep` is left after. -/
def classOf (p ep : List UInt8) : CharClass :=
  if p.head? = some 46 then .any
  else if p.head? = some escape then .named (p.getD 1 0)
  else if p.head? = some bracket then bracketSet (insideOf p ep)
  else .byte (p.getD 0 0)

/-- What is left after the class at the head of `p`. -/
def afterClass (p : List UInt8) : Except PatternError (List UInt8) :=
  if p.head? = some escape then if p.length = 1 then .error .endsWithPercent else .ok (p.drop 2)
  else if p.head? = some bracket then
    match bracketEnd (if p.tail.head? = some caret then p.drop 2 else p.drop 1) with
    | none => .error .missingBracket
    | some ep => .ok ep
  else .ok (p.drop 1)

/-! ## Items -/

inductive Repeat
  | once
  | optional
  | star
  | plus
  | lazy
  deriving DecidableEq

inductive Item
  | single (cls : CharClass) (rep : Repeat)
  | opens
  | position
  | closes
  | balance (b e : UInt8)
  | frontier (cls : CharClass)
  | back (digit : UInt8)
  | subjectEnd
  /-- The pattern is not well formed from here on. -/
  | bad (e : PatternError)
  deriving DecidableEq

def suffixOf (ep : List UInt8) : Repeat × List UInt8 :=
  if ep.head? = some 63 then (.optional, ep.drop 1)
  else if ep.head? = some 43 then (.plus, ep.drop 1)
  else if ep.head? = some 42 then (.star, ep.drop 1)
  else if ep.head? = some 45 then (.lazy, ep.drop 1)
  else (.once, ep)

def singleItem (p : List UInt8) : Item × List UInt8 :=
  match afterClass p with
  | .error e => (.bad e, [])
  | .ok ep => (.single (classOf p ep) (suffixOf ep).1, (suffixOf ep).2)

def frontierItem (p : List UInt8) : Item × List UInt8 :=
  if p.head? ≠ some bracket then (.bad .missingFrontierSet, [])
  else
    match afterClass p with
    | .error e => (.bad e, [])
    | .ok ep => (.frontier (bracketSet (insideOf p ep)), ep)

/-- The item at the head of `b :: rest`, and what is left after it. -/
def itemOf (b : UInt8) (rest : List UInt8) : Item × List UInt8 :=
  if b = opening then if rest.head? = some closing then (.position, rest.drop 1) else (.opens, rest)
  else if b = closing then (.closes, rest)
  else if b = 36 ∧ rest = [] then (.subjectEnd, rest)
  else if b = escape ∧ rest.head? = some 98 then
    if (rest.drop 1).length ≤ 1 then (.bad .missingBalanceArguments, [])
    else (.balance ((rest.drop 1).getD 0 0) ((rest.drop 1).getD 1 0), rest.drop 3)
  else if b = escape ∧ rest.head? = some 102 then frontierItem (rest.drop 1)
  else if b = escape ∧ rest.head?.any isDigit then (.back (rest.getD 0 0), rest.drop 1)
  else singleItem (b :: rest)

/-- Each turn has less of the pattern left. -/
def itemsFrom : (turns : Nat) → List UInt8 → List Item
  | 0, _ => []
  | _ + 1, [] => []
  | turns + 1, b :: rest => (itemOf b rest).1 :: itemsFrom turns (itemOf b rest).2

def items (p : List UInt8) : List Item := itemsFrom (p.length + 1) p

/-! ## Ways -/

abbrev Way := Except PatternError (Nat × List Capture)

section
variable (src : List UInt8)

/-- How many characters of the class follow from `s` on. -/
def run (cls : CharClass) (s : Nat) : Nat := ((src.drop s).takeWhile fun c => cls.holds c).length

/-- Where a class with its suffix may end, when `n` of its characters follow. -/
def Repeat.ends (n s : Nat) : Repeat → List Nat
  | .once => if 0 < n then [s + 1] else []
  | .optional => if 0 < n then [s + 1, s] else [s]
  | .star => (List.range (n + 1)).reverse.map (s + ·)
  | .plus => (List.range n).reverse.map (s + 1 + ·)
  | .lazy => (List.range (n + 1)).map (s + ·)

def Item.ways (s : Nat) (captures : List Capture) : Item → List Way
  | .single cls rep => (rep.ends (run src cls s) s).map fun e => .ok (e, captures)
  | .opens =>
      if kMaxCaptures ≤ captures.length then [.error .tooManyCaptures] else [.ok (s, captures ++ [⟨s, .unfinished⟩])]
  | .position =>
      if kMaxCaptures ≤ captures.length then [.error .tooManyCaptures] else [.ok (s, captures ++ [⟨s, .position⟩])]
  | .closes =>
      match captureToClose captures captures.length with
      | none => [.error .invalidPatternCapture]
      | some l => [.ok (s, captures.modify l fun c => { c with len := .length (s - c.init) })]
  | .balance b e =>
      if byteAt src s ≠ b then []
      else
        match balanceEnd b e (src.drop (s + 1)) 1 (s + 1) with
        | some closed => [.ok (closed + 1, captures)]
        | none => []
  | .frontier cls =>
      if !cls.holds (if s = 0 then 0 else byteAt src (s - 1)) && cls.holds (byteAt src s) then [.ok (s, captures)] else []
  | .back digit =>
      match checkCapture captures digit with
      | none => [.error (.invalidCaptureIndex (digit.toNat - 48))]
      | some ⟨init, .length len⟩ =>
          if len ≤ src.length - s ∧ slice src init len = slice src s len then [.ok (s + len, captures)] else []
      | some _ => []
  | .subjectEnd => if s = src.length then [.ok (s, captures)] else []
  | .bad e => [.error e]

/-- Every way through the items, the one that is preferred first. -/
def ways : List Item → Nat → List Capture → List Way
  | [], s, captures => [.ok (s, captures)]
  | item :: items, s, captures => andThen (item.ways src s captures) fun s captures => ways items s captures

/-! ## Matches -/

/-- How many characters the suffix asks for. -/
def Repeat.Allows (n : Nat) : Repeat → Prop
  | .once => n = 1
  | .optional => n ≤ 1
  | .star => True
  | .plus => 1 ≤ n
  | .lazy => True

/-- `n` characters of the class stand at `s`. -/
def CharClass.Stands (cls : CharClass) (s n : Nat) : Prop := n ≤ src.length - s ∧ ∀ c ∈ slice src s n, cls.holds c = true

inductive Item.Matches (s : Nat) (captures : List Capture) : Item → Nat → List Capture → Prop
  | single {cls : CharClass} {rep : Repeat} {n : Nat} :
      rep.Allows n → cls.Stands src s n → Item.Matches s captures (.single cls rep) (s + n) captures
  | opens : captures.length < kMaxCaptures → Item.Matches s captures .opens s (captures ++ [⟨s, .unfinished⟩])
  | position : captures.length < kMaxCaptures → Item.Matches s captures .position s (captures ++ [⟨s, .position⟩])
  | closes {l : Nat} : captureToClose captures captures.length = some l →
      Item.Matches s captures .closes s (captures.modify l fun c => { c with len := .length (s - c.init) })
  | balance {b e : UInt8} {closed : Nat} : byteAt src s = b →
      balanceEnd b e (src.drop (s + 1)) 1 (s + 1) = some closed →
      Item.Matches s captures (.balance b e) (closed + 1) captures
  | frontier {cls : CharClass} : cls.holds (if s = 0 then 0 else byteAt src (s - 1)) = false →
      cls.holds (byteAt src s) = true → Item.Matches s captures (.frontier cls) s captures
  | back {digit : UInt8} {init len : Nat} : checkCapture captures digit = some ⟨init, .length len⟩ →
      len ≤ src.length - s → slice src init len = slice src s len →
      Item.Matches s captures (.back digit) (s + len) captures
  | subjectEnd : s = src.length → Item.Matches s captures .subjectEnd s captures

inductive Matches : List Item → Nat → List Capture → Nat → List Capture → Prop
  | nil {s : Nat} {captures : List Capture} : Matches [] s captures s captures
  | cons {item : Item} {items : List Item} {s m e : Nat} {captures between after : List Capture} :
      Item.Matches src s captures item m between → Matches items m between e after →
      Matches (item :: items) s captures e after

end

end Budyk.Spec.LuaPattern
