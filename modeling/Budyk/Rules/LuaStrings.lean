import Budyk.Rules.LuaPattern

/-! The functions of Lua's string library in `rules/lua_pattern.c`: `find`, `match`, `gmatch` and `gsub`.

What Lua's stack holds is what a call returns; what a replacement does besides is what it does to the engine. -/

namespace Budyk.Rules.LuaPattern
open Lib

inductive Pushed
  | text (bytes : List UInt8)
  | integer (n : Nat)
  deriving DecidableEq

/-- What a replacement function, or a table's field, gives. -/
inductive Answer
  /-- nil or false. -/
  | nothing
  /-- A string, or a number as it is printed. -/
  | text (bytes : List UInt8)
  | other
  deriving DecidableEq

/-- A call into Lua. No answer: it raised. -/
abbrev Call := Counters → Option Answer × Counters

inductive Replacement
  | text (news : List UInt8)
  | function (call : List Pushed → Call)
  | table (index : Pushed → Call)

def posrelatI (pos : Int) (len : Nat) : Nat :=
  if pos > 0 then pos.toNat
  else if pos = 0 then 1
  else if pos < -len then 1
  else (len + pos + 1).toNat

def prepstate (engine : Counters) : MatchState := { captures := [], steps := 0, engine, counted := 0 }

def reprepstate : Matching Unit := modify fun ms => { ms with captures := [] }

/-- `^$*+?.([%-` -/
def kSpecials : List UInt8 := [94, 36, 42, 43, 63, 46, 40, 91, 37, 45]

/-- `strpbrk` stops at a NUL, and the loop goes on behind it. -/
def nospecials (p : List UInt8) : Bool := p.all fun c => !kSpecials.contains c

/-- An error, if there is one, is raised. -/
def raising {α : Type} : Except PatternError α → Matching α
  | .ok a => pure a
  | .error e => malformed e

section
variable (limits : Limits) (src : List UInt8)

/-! ## Captures -/

section
variable (captures : List Capture)

def getOnecapture (i s e : Nat) : Except PatternError Pushed :=
  match captures[i]? with
  | none => if i ≠ 0 then .error (.invalidCaptureIndex (i + 1)) else .ok (.text (slice src s (e - s)))
  | some ⟨_, .unfinished⟩ => .error .unfinishedCapture
  | some ⟨init, .position⟩ => .ok (.integer (init + 1))
  | some ⟨init, .length n⟩ => .ok (.text (slice src init n))

/-- The match itself is given, or the null pointers. -/
def pushCaptures (whole : Option (Nat × Nat)) : Except PatternError (List Pushed) :=
  let nlevels := if captures.length = 0 ∧ whole.isSome then 1 else captures.length
  (List.range nlevels).mapM fun i => getOnecapture src captures i (whole.getD (0, 0)).1 (whole.getD (0, 0)).2

end

/-! ## `find` and `match` -/

def memchr (c : UInt8) (s n : Nat) : Option Nat := ((slice src s n).findIdx? (· = c)).map (s + ·)

/-- The loop of `lmemfind`, for the text `first :: rest`. -/
def lmemfindFrom (first : UInt8) (rest : List UInt8) : (turns s l : Nat) → Matching (Option Nat)
  | 0, _, _ => pure none
  | turns + 1, s, l =>
      match memchr src first s l with
      | none => do
          count limits (l / 16)
          pure none
      | some init => do
          count limits (1 + (init - s) / 16 + rest.length / 16)
          if slice src (init + 1) rest.length = rest then pure (some init)
          else lmemfindFrom first rest turns (init + 1) (l - (init + 1 - s))

def lmemfind (s l : Nat) (p : List UInt8) : Matching (Option Nat) :=
  match p with
  | [] => pure (some s)
  | first :: rest => if p.length > l then pure none else lmemfindFrom limits src first rest (l + 1) s (l - rest.length)

/-- The loop of `str_find_aux`: where a match begins, and where it ends. -/
def searchFrom (p : List UInt8) (anchor : Bool) : (turns s : Nat) → Matching (Option (Nat × Nat))
  | 0, _ => pure none
  | turns + 1, s => do
      reprepstate
      match ← doMatch limits src s p with
      | some e => pure (some (s, e))
      | none => if s < src.length ∧ !anchor then searchFrom p anchor turns (s + 1) else pure none

/-- None is `nil`. -/
def strFindAux (find : Bool) (p : List UInt8) (init : Int) (plain : Bool) : Matching (Option (List Pushed)) := do
  let init := posrelatI init src.length - 1
  if init > src.length then pure none
  else if find && (plain || nospecials p) then do
    let found ← lmemfind limits src init (src.length - init) p
    countFlush limits
    match found with
    | some s => pure (some [.integer (s + 1), .integer (s + p.length)])
    | none => pure none
  else do
    let anchor := p.head? = some caret
    match ← searchFrom limits src (if anchor then p.tail else p) anchor (src.length - init + 1) init with
    | none => do
        countFlush limits
        pure none
    | some (s, e) => do
        countFlush limits
        if find then do
          let captures ← raising (pushCaptures src (← get).captures none)
          pure (some (.integer (s + 1) :: .integer e :: captures))
        else do
          let captures ← raising (pushCaptures src (← get).captures (some (s, e)))
          pure (some captures)

/-! ## `gmatch` -/

structure GMatchState where
  src : Nat
  lastmatch : Option Nat
  deriving DecidableEq

def gmatchInit (init : Int) : GMatchState :=
  let init := posrelatI init src.length - 1
  { src := if init > src.length then src.length + 1 else init, lastmatch := none }

/-- The loop of `gmatch_aux`. -/
def gmatchFrom (p : List UInt8) (lastmatch : Option Nat) : (turns s : Nat) → Matching (Option (Nat × Nat))
  | 0, _ => pure none
  | turns + 1, s => do
      reprepstate
      let e ← doMatch limits src s p
      if e.isSome ∧ e ≠ lastmatch then pure (e.map fun e => (s, e)) else gmatchFrom p lastmatch turns (s + 1)

/-- One call of the iterator: none ends the loop. -/
def gmatchAux (p : List UInt8) (gm : GMatchState) : Matching (Option (GMatchState × List Pushed)) := do
  match ← gmatchFrom limits src p gm.lastmatch (src.length + 1 - gm.src) gm.src with
  | none => do
      countFlush limits
      pure none
  | some (s, e) => do
      countFlush limits
      let captures ← raising (pushCaptures src (← get).captures (some (s, e)))
      pure (some (⟨e, some e⟩, captures))

/-- What a `for` over the iterator is given. -/
def gmatchLoop (p : List UInt8) : (turns : Nat) → GMatchState → Matching (List (List Pushed))
  | 0, _ => pure []
  | turns + 1, gm => do
      match ← gmatchAux limits src p gm with
      | none => pure []
      | some (gm, captures) => do
          let others ← gmatchLoop p turns gm
          pure (captures :: others)

/-! ## `gsub` -/

def Pushed.asText : Pushed → List UInt8
  | .text bytes => bytes
  | .integer n => decimal n

/-- The text to be added for a match. A `%` at the end is followed by the closing NUL. -/
def addS (captures : List Capture) (s e : Nat) : List UInt8 → Except PatternError (List UInt8)
  | [] => .ok []
  | c :: news =>
      if c ≠ escape then do
        let others ← addS captures s e news
        return c :: others
      else
        match news with
        | [] => .error .invalidReplacementUse
        | d :: news =>
            if d = escape then do
              let others ← addS captures s e news
              return d :: others
            else if d = 48 then do
              let others ← addS captures s e news
              return slice src s (e - s) ++ others
            else if isDigit d then do
              let value ← getOnecapture src captures (d.toNat - 49) s e
              let others ← addS captures s e news
              return value.asText ++ others
            else .error .invalidReplacementUse

def callLua (call : Call) : Matching Answer := fun ms =>
  match call ms.engine with
  | (some answer, engine) => .ok answer { ms with engine }
  | (none, engine) => .error .raised { ms with engine }

/-- The text for a match, and whether the subject is changed. -/
def Answer.replaces (s e : Nat) : Answer → Except PatternError (List UInt8 × Bool)
  | .nothing => .ok (slice src s (e - s), false)
  | .text bytes => .ok (bytes, true)
  | .other => .error .invalidReplacementValue

def addValue (repl : Replacement) (s e : Nat) : Matching (List UInt8 × Bool) := do
  let ms ← get
  match repl with
  | .text news => do
      let text ← raising (addS src ms.captures s e news)
      pure (text, true)
  | .function call => do
      let arguments ← raising (pushCaptures src ms.captures (some (s, e)))
      let answer ← callLua (call arguments)
      raising (answer.replaces src s e)
  | .table index => do
      let key ← raising (getOnecapture src ms.captures 0 s e)
      let answer ← callLua (index key)
      raising (answer.replaces src s e)

/-- What `gsub` has when its loop ends. -/
structure Substituted where
  src : Nat
  n : Nat
  changed : Bool
  b : List UInt8
  deriving DecidableEq

/-- The loop of `gsub`: each turn ends a match or skips a character. -/
def gsubFrom (p : List UInt8) (repl : Replacement) (maxS : Int) (anchor : Bool) :
    (turns : Nat) → (lastmatch : Option Nat) → Substituted → Matching Substituted
  | 0, _, r => pure r
  | turns + 1, lastmatch, r =>
      let skip := fun (r : Substituted) =>
        if r.src < src.length then
          let r := { r with src := r.src + 1, b := r.b ++ [byteAt src r.src] }
          if anchor then pure r else gsubFrom p repl maxS anchor turns lastmatch r
        else pure r
      if r.n < maxS then do
        reprepstate
        match ← doMatch limits src r.src p with
        | some e => if some e = lastmatch then skip r else do
            let (text, changed) ← addValue src repl r.src e
            let r := { src := e, n := r.n + 1, changed := changed || r.changed, b := r.b ++ text }
            if anchor then pure r else gsubFrom p repl maxS anchor turns (some e) r
        | none => skip r
      else pure r

def strGsub (p : List UInt8) (repl : Replacement) (maxS : Option Int) : Matching (List UInt8 × Nat) := do
  let anchor := p.head? = some caret
  let r ← gsubFrom limits src (if anchor then p.tail else p) repl (maxS.getD (src.length + 1)) anchor
    (2 * src.length + 2) none { src := 0, n := 0, changed := false, b := [] }
  countFlush limits
  pure (if r.changed then r.b ++ src.drop r.src else src, r.n)

end

end Budyk.Rules.LuaPattern
