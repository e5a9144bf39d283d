import Budyk.Lib.Text
import Budyk.Rules.Limits

/-! The pattern functions of `rules/lua_pattern.c`: `find`, `match`, `gmatch` and `gsub`, with the matcher's steps
charged to the engine's instruction limit.

A pointer into the pattern is what is left of the pattern, one into the subject an index; past its end the subject
reads as its closing NUL. What is left of `matchdepth` is an argument: a call that returns gives back what it took. -/

namespace Budyk.Rules.LuaPattern
open Lib

abbrev kMaxCaptures : Nat := 32
abbrev kMaxCCalls : Nat := 200
abbrev kStepChunk : Nat := 1024

/-! ## The classes of `ctype.h` -/

def isLower (c : UInt8) : Bool := 97 ≤ c && c ≤ 122
def isUpper (c : UInt8) : Bool := 65 ≤ c && c ≤ 90
def isAlpha (c : UInt8) : Bool := isLower c || isUpper c
def isAlnum (c : UInt8) : Bool := isAlpha c || isDigit c
def isCntrl (c : UInt8) : Bool := c < 32 || c = 127
def isGraph (c : UInt8) : Bool := 32 < c && c < 127
def isPunct (c : UInt8) : Bool := isGraph c && !isAlnum c
def isXDigit (c : UInt8) : Bool := isDigit c || (97 ≤ c && c ≤ 102) || (65 ≤ c && c ≤ 70)
def toLower (c : UInt8) : UInt8 := if isUpper c then c + 32 else c

/-! ## The state of a match -/

inductive CaptureLen
  | unfinished
  | position
  | length (n : Nat)
  deriving DecidableEq

structure Capture where
  init : Nat
  len : CaptureLen
  deriving DecidableEq

inductive PatternError
  | invalidCaptureIndex (index : Nat)
  | invalidPatternCapture
  | endsWithPercent
  | missingBracket
  | missingBalanceArguments
  | tooManyCaptures
  | missingFrontierSet
  | unfinishedCapture
  | invalidReplacementUse
  | invalidReplacementValue
  deriving DecidableEq

inductive MatchError
  | pattern (e : PatternError)
  | tooComplex
  | limit
  /-- What a replacement function raised. -/
  | raised
  deriving DecidableEq

structure MatchState where
  captures : List Capture
  /-- Steps not yet charged. -/
  steps : Nat
  engine : Counters
  /-- Every step counted, charged or not: read by nothing. -/
  counted : Nat
  deriving DecidableEq

abbrev Matching := EStateM MatchError MatchState

def malformed {α : Type} (e : PatternError) : Matching α := throw (.pattern e)

section
variable (limits : Limits)

def budykLuaCharge (n : Nat) : Matching Unit := fun ms =>
  match ms.engine.charge limits (UInt64.ofNat n) with
  | (true, engine) => .error .limit { ms with engine }
  | (false, engine) => .ok () { ms with engine }

def count (n : Nat) : Matching Unit := fun ms =>
  let ms := { ms with steps := ms.steps + n, counted := ms.counted + n }
  if ms.steps ≥ kStepChunk then budykLuaCharge limits ms.steps { ms with steps := 0 } else .ok () ms

def countFlush : Matching Unit := fun ms =>
  if 0 < ms.steps then budykLuaCharge limits ms.steps { ms with steps := 0 } else .ok () ms

end

/-! ## One character -/

abbrev escape : UInt8 := 37
abbrev opening : UInt8 := 40
abbrev closing : UInt8 := 41
abbrev bracket : UInt8 := 91
abbrev bracketClose : UInt8 := 93
abbrev caret : UInt8 := 94

def kClasses : List (UInt8 × (UInt8 → Bool)) :=
  [(97, isAlpha), (99, isCntrl), (100, isDigit), (103, isGraph), (108, isLower), (112, isPunct), (115, isSpace),
    (117, isUpper), (119, isAlnum), (120, isXDigit), (122, (· = 0))]

def matchClass (c cl : UInt8) : Bool :=
  match kClasses.lookup (toLower cl) with
  | some test => if isLower cl then test c else !test c
  | none => cl = c

/-- What is left after the `]` of a class, from behind its `[` and `^`. The first character is never the `]`. -/
def bracketEnd : List UInt8 → Option (List UInt8)
  | [] => none
  | [_] => none
  | b :: c :: p =>
      if b = escape then
        match p with
        | [] => none
        | d :: p => if d = bracketClose then some p else bracketEnd (d :: p)
      else if c = bracketClose then some p
      else bracketEnd (c :: p)

/-- The members of a class: ranges, classes and characters. -/
def inBracket (c : UInt8) : List UInt8 → Bool
  | [] => false
  | [b] => if b = escape then matchClass c bracketClose else b = c
  | [b, d] => if b = escape then matchClass c d else b = c || inBracket c [d]
  | b :: d :: e :: p =>
      if b = escape then matchClass c d || inBracket c (e :: p)
      else if d = 45 then (b ≤ c && c ≤ e) || inBracket c p
      else b = c || inBracket c (d :: e :: p)

/-- `inside` is what stands between `[` and `]`. -/
def matchBracketClass (c : UInt8) (inside : List UInt8) : Bool :=
  if inside.head? = some caret then !inBracket c inside.tail else inBracket c inside

/-- What stands between the brackets of `p`, a class that `ep` is left after. -/
def insideOf (p ep : List UInt8) : List UInt8 := (p.drop 1).take (p.length - ep.length - 2)

section
variable (limits : Limits) (src : List UInt8)

def byteAt (s : Nat) : UInt8 := src.getD s 0

def classend (p : List UInt8) : Matching (List UInt8) :=
  if p.head? = some escape then
    if p.length = 1 then malformed .endsWithPercent else pure (p.drop 2)
  else if p.head? = some bracket then
    match bracketEnd (if p.tail.head? = some caret then p.drop 2 else p.drop 1) with
    | none => malformed .missingBracket
    | some ep => do
        count limits ((p.length - ep.length - 1) / 16)
        pure ep
  else pure (p.drop 1)

def singlematch (s : Nat) (p ep : List UInt8) : Matching Bool := do
  count limits 1
  if src.length ≤ s then pure false
  else
    let c := byteAt src s
    if p.head? = some 46 then pure true
    else if p.head? = some escape then pure (matchClass c (p.getD 1 0))
    else if p.head? = some bracket then do
      count limits ((p.length - ep.length) / 16)
      pure (matchBracketClass c (insideOf p ep))
    else pure (p.head? = some c)

/-! ## The items that are no single character -/

/-- The `e` that closes `cont` open `b`s, in `rest` that begins at `s`. -/
def balanceEnd (b e : UInt8) : List UInt8 → Nat → Nat → Option Nat
  | [], _, _ => none
  | c :: rest, cont, s =>
      if c = e then if cont = 1 then some s else balanceEnd b e rest (cont - 1) (s + 1)
      else if c = b then balanceEnd b e rest (cont + 1) (s + 1)
      else balanceEnd b e rest cont (s + 1)

def matchbalance (s : Nat) (p : List UInt8) : Matching (Option Nat) :=
  if p.length ≤ 1 then malformed .missingBalanceArguments
  else if byteAt src s ≠ p.getD 0 0 then pure none
  else
    match balanceEnd (p.getD 0 0) (p.getD 1 0) (src.drop (s + 1)) 1 (s + 1) with
    | some closed => do
        count limits (closed - s)
        pure (some (closed + 1))
    | none => do
        count limits (max (src.length - s) 1)
        pure none

def frontier (s : Nat) (inside : List UInt8) : Bool :=
  !matchBracketClass (if s = 0 then 0 else byteAt src (s - 1)) inside && matchBracketClass (byteAt src s) inside

/-- The last of the first `level` captures that is not finished. -/
def captureToClose (captures : List Capture) : (level : Nat) → Option Nat
  | 0 => none
  | level + 1 =>
      if captures[level]?.map Capture.len = some .unfinished then some level else captureToClose captures level

def slice (s n : Nat) : List UInt8 := (src.drop s).take n

/-- The capture that `%1` .. `%9` names; `%0` names none. -/
def checkCapture (captures : List Capture) (l : UInt8) : Option Capture :=
  if l.toNat < 49 then none
  else
    match captures[l.toNat - 49]? with
    | some capture => if capture.len = .unfinished then none else some capture
    | none => none

/-- `CAP_POSITION`, -2, as a `size_t`. -/
def positionLen : Nat := 2 ^ 64 - 2

def matchCapture (s : Nat) (l : UInt8) : Matching (Option Nat) := do
  let ms ← get
  match checkCapture ms.captures l with
  | none => malformed (.invalidCaptureIndex (l.toNat - 48))
  | some { init, len := .length len } => do
      count limits (1 + len / 16)
      if len ≤ src.length - s ∧ slice src init len = slice src s len then pure (some (s + len)) else pure none
  | some _ => do
      -- no string is as long
      count limits (1 + positionLen / 16)
      pure none

/-! ## The matcher -/

section
variable (again : Nat → Matching (Option Nat))

def startCapture (s : Nat) (what : CaptureLen) : Matching (Option Nat) := do
  let ms ← get
  if kMaxCaptures ≤ ms.captures.length then malformed .tooManyCaptures
  else do
    modify fun ms => { ms with captures := ms.captures ++ [⟨s, what⟩] }
    match ← again s with
    | some e => pure (some e)
    | none => do
        modify fun ms => { ms with captures := ms.captures.dropLast }
        pure none

def endCapture (s : Nat) : Matching (Option Nat) := do
  let ms ← get
  match captureToClose ms.captures ms.captures.length with
  | none => malformed .invalidPatternCapture
  | some l => do
      modify fun ms => { ms with captures := ms.captures.modify l fun c => { c with len := .length (s - c.init) } }
      match ← again s with
      | some e => pure (some e)
      | none => do
          modify fun ms => { ms with captures := ms.captures.modify l fun c => { c with len := .unfinished } }
          pure none

/-- How often the item matches from `s` on, `i` times so far: at the subject's end it does not. -/
def repeats (s : Nat) (p ep : List UInt8) : (turns i : Nat) → Matching Nat
  | 0, i => pure i
  | turns + 1, i => do
      if ← singlematch limits src (s + i) p ep then repeats s p ep turns (i + 1) else pure i

def shrink (s : Nat) : (i : Nat) → Matching (Option Nat)
  | 0 => again s
  | i + 1 => do
      match ← again (s + (i + 1)) with
      | some e => pure (some e)
      | none => shrink s i

def maxExpand (s : Nat) (p ep : List UInt8) : Matching (Option Nat) := do
  let i ← repeats limits src s p ep (src.length - s + 1) 0
  shrink again s i

def minExpand (p ep : List UInt8) : (turns s : Nat) → Matching (Option Nat)
  | 0, _ => pure none
  | turns + 1, s => do
      match ← again s with
      | some e => pure (some e)
      | none => do
          if ← singlematch limits src s p ep then minExpand p ep turns (s + 1) else pure none

end

/-- A class with its suffix: `deeper` is a call of `match`, `next` its `goto init`. -/
def matchDefault (deeper next : Nat → List UInt8 → Matching (Option Nat)) (s : Nat) (p : List UInt8) :
    Matching (Option Nat) := do
  let ep ← classend limits p
  let matched ← singlematch limits src s p ep
  let again := fun s => deeper s (ep.drop 1)
  if !matched then
    if ep.head? = some 42 ∨ ep.head? = some 63 ∨ ep.head? = some 45 then next s (ep.drop 1) else pure none
  else if ep.head? = some 63 then do
    match ← again (s + 1) with
    | some e => pure (some e)
    | none => next s (ep.drop 1)
  else if ep.head? = some 43 then maxExpand limits src again (s + 1) p ep
  else if ep.head? = some 42 then maxExpand limits src again s p ep
  else if ep.head? = some 45 then minExpand limits src again p ep (src.length - s + 1) s
  else next (s + 1) ep

def matchItem (deeper next : Nat → List UInt8 → Matching (Option Nat)) (s : Nat) (p : List UInt8) :
    Matching (Option Nat) :=
  match p with
  | [] => pure (some s)
  | b :: rest =>
      if b = opening then
        if rest.head? = some closing then startCapture (fun s => deeper s (rest.drop 1)) s .position
        else startCapture (fun s => deeper s rest) s .unfinished
      else if b = closing then endCapture (fun s => deeper s rest) s
      else if b = 36 ∧ rest = [] then pure (if s = src.length then some s else none)
      else if b = escape ∧ rest.head? = some 98 then do
        match ← matchbalance limits src s (rest.drop 1) with
        | some s => next s (rest.drop 3)
        | none => pure none
      else if b = escape ∧ rest.head? = some 102 then
        let p := rest.drop 1
        if p.head? ≠ some bracket then malformed .missingFrontierSet
        else do
          let ep ← classend limits p
          if frontier src s (insideOf p ep) then next s ep else pure none
      else if b = escape ∧ rest.head?.any isDigit then do
        match ← matchCapture limits src s (rest.getD 0 0) with
        | some s => next s (rest.drop 1)
        | none => pure none
      else matchDefault limits src deeper next s (b :: rest)

/-- `match` behind its `init:`. Each turn has less of the pattern left: a turn more than its length is enough. -/
def matchFrom : (turns depth s : Nat) → List UInt8 → Matching (Option Nat)
  | 0, _, _, _ => throw .tooComplex
  | turns + 1, depth, s, p => do
      count limits 1
      matchItem limits src (fun s p => if depth = 0 then throw .tooComplex else matchFrom turns (depth - 1) s p)
        (fun s p => matchFrom turns depth s p) s p

def doMatch (s : Nat) (p : List UInt8) : Matching (Option Nat) :=
  matchFrom limits src (p.length + 1) (kMaxCCalls - 1) s p

end

end Budyk.Rules.LuaPattern
