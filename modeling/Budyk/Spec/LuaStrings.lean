import Budyk.Lib.Find
import Budyk.Rules.LuaStrings
import Budyk.Spec.LuaPattern

/-! What Lua's string functions are for: the matches of a pattern in a subject, left to right, and the text with some
of them replaced. -/

namespace Budyk.Spec.LuaPattern
open Lib Rules Rules.LuaPattern

structure Visit where
  first : Nat
  last : Nat
  captures : List Capture
  deriving DecidableEq

section
variable (src p : List UInt8)

/-- What a match that begins at `s` comes to. -/
def matchAt (s : Nat) : Option (Except PatternError Visit) :=
  (ways src (items p) s []).head?.map fun way => way.map fun found => ⟨s, found.1, found.2⟩

/-- Not the match at the end of the one before, nor an error. -/
def isVisit (lastmatch : Option Nat) : Except PatternError Visit → Bool
  | .ok v => some v.last ≠ lastmatch
  | .error _ => true

/-- The first match from `s` on. -/
def nextVisit (lastmatch : Option Nat) (s : Nat) : Option (Except PatternError Visit) :=
  (List.range' s (src.length + 1 - s)).findSome? fun s => (matchAt src p s).filter (isVisit lastmatch)

/-- The matches from `s` on. Each ends behind the one before. -/
def visitsFrom : (turns : Nat) → (lastmatch : Option Nat) → (s : Nat) → List (Except PatternError Visit)
  | 0, _, _ => []
  | turns + 1, lastmatch, s =>
      match nextVisit src p lastmatch s with
      | none => []
      | some (.error e) => [.error e]
      | some (.ok v) => .ok v :: visitsFrom turns (some v.last) v.last

def visits (s : Nat) : List (Except PatternError Visit) := visitsFrom src p (src.length + 2) none s

/-- What `find` and `match` seek from `s` on: with a `^` before the pattern, a match that begins there. -/
def sought (s : Nat) : Option (Except PatternError Visit) :=
  if p.head? = some caret then matchAt src p.tail s else nextVisit src p none s

/-- What `find` or `match` returns for a match. -/
def matchValues (find : Bool) (v : Visit) : Except PatternError (List Pushed) :=
  if find then
    (pushCaptures src v.captures none).map fun captures => .integer (v.first + 1) :: .integer v.last :: captures
  else pushCaptures src v.captures (some (v.first, v.last))

/-- What `find` or `match` comes to. -/
def strFound (find : Bool) (init : Int) (plain : Bool) : Except PatternError (Option (List Pushed)) :=
  let s := posrelatI init src.length - 1
  if src.length < s then .ok none
  else if find && (plain || nospecials p) then
    .ok ((findFrom p src s).map fun s => [.integer (s + 1), .integer (s + p.length)])
  else
    match sought src p s with
    | none => .ok none
    | some (.error e) => .error e
    | some (.ok v) => (matchValues src find v).map some

/-- Matches from `s` on, one behind the other. -/
def VisitsInOrder : (lastmatch : Option Nat) → (s : Nat) → List Visit → Prop
  | _, _, [] => True
  | lastmatch, s, v :: others =>
      (s ≤ v.first ∧ v.first ≤ v.last ∧ v.last ≤ src.length ∧ some v.last ≠ lastmatch) ∧
        VisitsInOrder (some v.last) v.last others

/-- What a call of `gmatch`'s iterator comes to. -/
def gmatchNext (gm : GMatchState) : Except PatternError (Option (GMatchState × List Pushed)) :=
  match nextVisit src p gm.lastmatch gm.src with
  | none => .ok none
  | some (.error e) => .error e
  | some (.ok v) => (matchValues src false v).map fun values => some (⟨v.last, some v.last⟩, values)

/-- What a loop over `gmatch` is given for these matches. -/
def iterated (found : List (Except PatternError Visit)) : Except PatternError (List (List Pushed)) :=
  found.mapM fun visit => visit >>= matchValues src false

/-- What `gsub` replaces: with a `^` before the pattern, a match at the subject's begin. -/
def replaced : List (Except PatternError Visit) :=
  if p.head? = some caret then (matchAt src p.tail 0).toList else visits src p 0

end

/-! ## Replacements -/

section
variable (src : List UInt8)

/-- `repl` gives this text for the visit, and says whether that is a change. -/
inductive Gives (v : Visit) : Replacement → List UInt8 → Bool → Prop
  | text {news text : List UInt8} : addS src v.captures v.first v.last news = .ok text → Gives v (.text news) text true
  | function {call : List Pushed → Call} {arguments : List Pushed} {engine after : Counters} {answer : Answer}
      {text : List UInt8} {changed : Bool} :
      pushCaptures src v.captures (some (v.first, v.last)) = .ok arguments →
      call arguments engine = (some answer, after) → answer.replaces src v.first v.last = .ok (text, changed) →
      Gives v (.function call) text changed
  | table {index : Pushed → Call} {key : Pushed} {engine after : Counters} {answer : Answer} {text : List UInt8}
      {changed : Bool} :
      getOnecapture src v.captures 0 v.first v.last = .ok key → index key engine = (some answer, after) →
      answer.replaces src v.first v.last = .ok (text, changed) → Gives v (.table index) text changed

/-- `repl` has no text for the visit. -/
inductive Refuses (v : Visit) : Replacement → PatternError → Prop
  | text {news : List UInt8} {e : PatternError} : addS src v.captures v.first v.last news = .error e →
      Refuses v (.text news) e
  | arguments {call : List Pushed → Call} {e : PatternError} :
      pushCaptures src v.captures (some (v.first, v.last)) = .error e → Refuses v (.function call) e
  | key {index : Pushed → Call} {e : PatternError} : getOnecapture src v.captures 0 v.first v.last = .error e →
      Refuses v (.table index) e
  | answered {call : List Pushed → Call} {arguments : List Pushed} {engine after : Counters} :
      pushCaptures src v.captures (some (v.first, v.last)) = .ok arguments →
      call arguments engine = (some .other, after) → Refuses v (.function call) .invalidReplacementValue
  | indexed {index : Pushed → Call} {key : Pushed} {engine after : Counters} :
      getOnecapture src v.captures 0 v.first v.last = .ok key → index key engine = (some .other, after) →
      Refuses v (.table index) .invalidReplacementValue

/-- The subject from `s` on, with these texts for these matches. -/
def spliced : (s : Nat) → List (Visit × List UInt8) → List UInt8
  | s, [] => src.drop s
  | s, (v, text) :: others => slice src s (v.first - s) ++ text ++ spliced v.last others

end

end Budyk.Spec.LuaPattern
