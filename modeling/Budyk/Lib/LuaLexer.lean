import Budyk.Lib.Text

/-! The tokens of Lua 5.4 (§3.1 of its manual), read from bytes as its own lexer does: the longest token at each place,
blanks and comments left out. -/

namespace Budyk.Lib

inductive LuaToken
  | name (word : List UInt8)
  | reserved (word : List UInt8)
  /-- The bytes that the literal denotes. -/
  | string (bytes : List UInt8)
  /-- A numeral as it is written. -/
  | numeral (digits : List UInt8)
  | symbol (bytes : List UInt8)
  deriving DecidableEq

namespace Lua

def isNewline (b : UInt8) : Bool := b = newline || b = carriageReturn

def isNameStart (b : UInt8) : Bool := (65 ≤ b && b ≤ 90) || (97 ≤ b && b ≤ 122) || b = 95

def isNameRest (b : UInt8) : Bool := isNameStart b || isDigit b

def isHex (b : UInt8) : Bool := isDigit b || (65 ≤ b && b ≤ 70) || (97 ≤ b && b ≤ 102)

/-- What follows a newline `b`, which the other newline byte may complete. -/
def afterNewline (b : UInt8) : List UInt8 → List UInt8
  | [] => []
  | c :: s => if isNewline c && c ≠ b then s else c :: s

/-! ## Names -/

def reservedWords : List (List UInt8) :=
  ["and", "break", "do", "else", "elseif", "end", "false", "for", "function", "goto", "if", "in", "local", "nil", "not",
    "or", "repeat", "return", "then", "true", "until", "while"].map text

def wordToken (word : List UInt8) : LuaToken := if word ∈ reservedWords then .reserved word else .name word

/-! ## Numerals -/

/-- The digits, letters and points a numeral is made of, with the sign that may follow an exponent's letter. -/
def numeralTail (exponent : UInt8 → Bool) : Bool → List UInt8 → List UInt8 × List UInt8
  | _, [] => ([], [])
  | afterExponent, b :: s =>
      let go (next : Bool) : List UInt8 × List UInt8 :=
        ((b :: (numeralTail exponent next s).1), (numeralTail exponent next s).2)
      if afterExponent && (b = 43 || b = 45) then go false
      else if exponent b then go true
      else if isHex b || b = 46 then go false
      else ([], b :: s)

def exponentOk (exponent : UInt8 → Bool) : List UInt8 → Bool
  | [] => true
  | b :: s =>
      let digits := if s.head? = some 43 ∨ s.head? = some 45 then s.tail else s
      exponent b && digits ≠ [] && digits.all isDigit

/-- Digits with a point among them, then maybe an exponent. -/
def mantissaOk (digit exponent : UInt8 → Bool) (s : List UInt8) : Bool :=
  let whole := s.takeWhile digit
  let rest := s.dropWhile digit
  if rest.head? = some 46 then
    (whole ≠ [] || rest.tail.takeWhile digit ≠ []) && exponentOk exponent (rest.tail.dropWhile digit)
  else whole ≠ [] && exponentOk exponent rest

def isE (b : UInt8) : Bool := b = 69 || b = 101
def isP (b : UInt8) : Bool := b = 80 || b = 112
def isX (b : UInt8) : Bool := b = 88 || b = 120

def numeralOk (s : List UInt8) : Bool :=
  if s.head? = some 48 ∧ s.tail.head?.any isX then mantissaOk isHex isP (s.drop 2) else mantissaOk isDigit isE s

/-- A numeral that goes on with `s`, `before` of it read. -/
def readNumeral (before : List UInt8) (first : UInt8) (s : List UInt8) : Option (LuaToken × List UInt8) :=
  let hex := first = 48 && s.head?.any isX
  let tail := if hex then numeralTail isP false s.tail else numeralTail isE false s
  let digits := before ++ first :: (if hex then s.take 1 else []) ++ tail.1
  if tail.2.head?.any isNameStart || !numeralOk digits then none else some (.numeral digits, tail.2)

/-! ## Strings -/

/-- The bytes of a character number, as UTF-8 has them up to 2 ^ 31. -/
def utf8Escape (n : Nat) : List UInt8 :=
  let rest (k : Nat) : UInt8 := UInt8.ofNat (0x80 + n / 64 ^ k % 64)
  if n < 0x80 then [UInt8.ofNat n]
  else if n < 0x800 then [UInt8.ofNat (0xc0 + n / 64), rest 0]
  else if n < 0x10000 then [UInt8.ofNat (0xe0 + n / 64 ^ 2), rest 1, rest 0]
  else if n < 0x200000 then [UInt8.ofNat (0xf0 + n / 64 ^ 3), rest 2, rest 1, rest 0]
  else if n < 0x4000000 then [UInt8.ofNat (0xf8 + n / 64 ^ 4), rest 3, rest 2, rest 1, rest 0]
  else [UInt8.ofNat (0xfc + n / 64 ^ 5), rest 4, rest 3, rest 2, rest 1, rest 0]

def hexDigit (b : UInt8) : Nat := if isDigit b then b.toNat - 48 else if b < 97 then b.toNat - 55 else b.toNat - 87

def hexDigits (digits : List UInt8) : Nat := digits.foldl (fun value b => 16 * value + hexDigit b) 0

def shortEscapes : List (UInt8 × UInt8) :=
  [(97, 7), (98, 8), (102, 12), (110, 10), (114, 13), (116, 9), (118, 11), (92, 92), (34, 34), (39, 39)]

/-- `\xXX` -/
def hexEscape (s : List UInt8) : Option (List UInt8 × List UInt8) :=
  let digits := s.take 2
  if digits.length = 2 ∧ digits.all isHex then some ([UInt8.ofNat (hexDigits digits)], s.drop 2) else none

/-- `\u\x7bXXX\x7d` -/
def codeEscape (s : List UInt8) : Option (List UInt8 × List UInt8) :=
  let digits := s.tail.takeWhile isHex
  let rest := s.tail.dropWhile isHex
  if s.head? = some 123 ∧ digits ≠ [] ∧ hexDigits digits < 2 ^ 31 ∧ rest.head? = some 125
  then some (utf8Escape (hexDigits digits), rest.tail) else none

/-- `\ddd`, of up to three digits. -/
def decimalEscape (s : List UInt8) : Option (List UInt8 × List UInt8) :=
  let digits := (s.take 3).takeWhile isDigit
  if digitsValue digits ≤ 255 then some ([UInt8.ofNat (digitsValue digits)], s.drop digits.length) else none

/-- What is denoted after a backslash. -/
def readEscape : List UInt8 → Option (List UInt8 × List UInt8)
  | [] => none
  | b :: s =>
      match shortEscapes.lookup b with
      | some c => some ([c], s)
      | none =>
          if isNewline b then some ([newline], afterNewline b s)
          else if b = 122 then some ([], s.dropWhile isSpace)
          else if b = 120 then hexEscape s
          else if b = 117 then codeEscape s
          else if isDigit b then decimalEscape (b :: s)
          else none

/-! What is read of a text is read of one that goes on, as long as it ends inside, or at a newline. -/

section Local
variable {α : Type}

/-- The scanner leaves an end of its text, and of a longer one that end with what follows it. -/
def LocalIf (ends : List UInt8 → List UInt8 → List UInt8 → Prop) (scan : List UInt8 → Option (α × List UInt8)) : Prop :=
  ∀ s x rest, scan s = some (x, rest) → rest <:+ s ∧ ∀ u, ends s rest u → scan (s ++ u) = some (x, rest ++ u)

def Inside (_ rest _ : List UInt8) : Prop := rest ≠ []

def Anyhow (_ _ _ : List UInt8) : Prop := True

/-- Inside, or at the newline that follows a line. -/
def AtLineEnd (s rest u : List UInt8) : Prop := rest ≠ [] ∨ (u.head? = some newline ∧ ∀ b ∈ s, isNewline b = false)

theorem span_append {p : UInt8 → Bool} {s u : List UInt8} (ends : s.dropWhile p ≠ [] ∨ ∀ b ∈ u.head?, p b = false) :
    (s ++ u).takeWhile p = s.takeWhile p ∧ (s ++ u).dropWhile p = s.dropWhile p ++ u := by
  induction s with
  | nil =>
      cases u with
      | nil => exact ⟨rfl, rfl⟩
      | cons b u =>
          have stops : p b = false := by simpa using ends
          simp [stops]
  | cons b s ih =>
      by_cases holds : p b = true
      · rw [List.dropWhile_cons_of_pos holds] at ends
        obtain ⟨taken, dropped⟩ := ih ends
        simp [holds, taken, dropped]
      · simp [holds]

theorem afterNewline_suffix (b : UInt8) (s : List UInt8) : afterNewline b s <:+ s := by
  cases s with
  | nil => exact List.suffix_refl _
  | cons c s =>
      rw [afterNewline]
      split
      next => exact List.suffix_cons _ _
      next => exact List.suffix_refl _

theorem afterNewline_append {b : UInt8} {s : List UInt8} (u : List UInt8) (inside : afterNewline b s ≠ []) :
    afterNewline b (s ++ u) = afterNewline b s ++ u := by
  cases s with
  | nil => exact absurd rfl inside
  | cons c s =>
      simp only [List.cons_append, afterNewline]
      split <;> rfl

theorem hexEscape_local : LocalIf Inside hexEscape := by
  intro s x rest read
  unfold hexEscape at *
  dsimp only at *
  split at read
  next two =>
    cases read
    have long : 2 ≤ s.length := by
      have length := two.1
      rw [List.length_take] at length
      omega
    refine ⟨List.drop_suffix _ _, fun u _ => ?_⟩
    rw [List.take_append_of_le_length long, List.drop_append_of_le_length long, if_pos two]
  next => cases read

theorem codeEscape_local : LocalIf Inside codeEscape := by
  intro s x rest read
  unfold codeEscape at *
  dsimp only at *
  split at read
  next code =>
    obtain ⟨opens, digits, small, ends⟩ := code
    cases read
    refine ⟨(List.tail_suffix _).trans ((List.dropWhile_suffix _).trans (List.tail_suffix _)), fun u _ => ?_⟩
    obtain ⟨s', rfl⟩ : ∃ s', s = 123 :: s' := by
      cases s with
      | nil => cases opens
      | cons b s' => exact ⟨s', by cases opens; rfl⟩
    rw [List.tail_cons] at *
    have inside : s'.dropWhile isHex ≠ [] := by
      intro empty
      rw [empty] at ends
      cases ends
    obtain ⟨taken, dropped⟩ := span_append (u := u) (.inl inside)
    rw [List.cons_append, List.tail_cons, taken, dropped]
    have more : (s'.dropWhile isHex ++ u).head? = some 125 := by
      rw [List.head?_append_of_ne_nil _ inside, ends]
    rw [if_pos ⟨rfl, digits, small, more⟩, List.tail_append_of_ne_nil inside]
  next => cases read

theorem decimalEscape_local : LocalIf Inside decimalEscape := by
  intro s x rest read
  unfold decimalEscape at *
  dsimp only at *
  split at read
  next small =>
    cases read
    refine ⟨List.drop_suffix _ _, fun u inside => ?_⟩
    have same : ((s ++ u).take 3).takeWhile isDigit = (s.take 3).takeWhile isDigit := by
      by_cases long : 3 ≤ s.length
      · rw [List.take_append_of_le_length long]
      · have whole : s.take 3 = s := List.take_of_length_le (by omega)
        have stops : s.dropWhile isDigit ≠ [] := by
          intro empty
          have all := List.takeWhile_append_dropWhile (p := isDigit) (l := s)
          rw [empty, List.append_nil] at all
          refine inside ?_
          rw [whole, all, List.drop_length]
        rw [List.take_append, whole]
        exact (span_append (.inl stops)).1
    have within : ((s.take 3).takeWhile isDigit).length ≤ s.length :=
      ((List.takeWhile_prefix _).length_le).trans (List.length_take_le' _ _)
    rw [same, if_pos small, List.drop_append_of_le_length within]
  next => cases read

theorem readEscape_local {s bytes rest : List UInt8} (read : readEscape s = some (bytes, rest)) :
    (∃ b s', s = b :: s' ∧ rest <:+ s') ∧ ∀ u, rest ≠ [] → readEscape (s ++ u) = some (bytes, rest ++ u) := by
  cases s with
  | nil => cases read
  | cons b s =>
      rw [readEscape] at read
      simp only [List.cons_append, readEscape]
      cases found : shortEscapes.lookup b with
      | some c =>
          rw [found] at read
          cases read
          exact ⟨⟨b, _, rfl, List.suffix_refl _⟩, fun _ _ => rfl⟩
      | none =>
          rw [found] at read
          dsimp only at read ⊢
          split at read
          next pair =>
            cases read
            refine ⟨⟨b, s, rfl, afterNewline_suffix b s⟩, fun u inside => ?_⟩
            rw [if_pos pair, afterNewline_append u inside]
          next single =>
            simp only [if_neg single]
            split at read
            next blanks =>
              cases read
              refine ⟨⟨b, s, rfl, List.dropWhile_suffix _⟩, fun u inside => ?_⟩
              rw [if_pos blanks, (span_append (.inl inside)).2]
            next other =>
              simp only [if_neg other]
              split at read
              next hex =>
                simp only [if_pos hex]
                obtain ⟨suffix, more⟩ := hexEscape_local s bytes rest read
                exact ⟨⟨b, s, rfl, suffix⟩, more⟩
              next other =>
                simp only [if_neg other]
                split at read
                next code =>
                  simp only [if_pos code]
                  obtain ⟨suffix, more⟩ := codeEscape_local s bytes rest read
                  exact ⟨⟨b, s, rfl, suffix⟩, more⟩
                next other =>
                  simp only [if_neg other]
                  split at read
                  next digit =>
                    simp only [if_pos digit]
                    obtain ⟨-, more⟩ := decimalEscape_local (b :: s) bytes rest read
                    refine ⟨⟨b, s, rfl, ?_⟩, more⟩
                    unfold decimalEscape at read
                    dsimp only at read
                    split at read
                    next =>
                      cases read
                      rw [List.take_succ_cons, List.takeWhile_cons_of_pos digit, List.length_cons, List.drop_succ_cons]
                      exact List.drop_suffix _ _
                    next => cases read
                  next => cases read

theorem readEscape_length {s bytes rest : List UInt8} (read : readEscape s = some (bytes, rest)) :
    rest.length < s.length := by
  obtain ⟨⟨b, s', rfl, suffix⟩, -⟩ := readEscape_local read
  exact Nat.lt_succ_of_le suffix.length_le

end Local

/-- The string that `del` ends. -/
def readString (del : UInt8) : List UInt8 → Option (List UInt8 × List UInt8)
  | [] => none
  | b :: s =>
      if b = del then some ([], s)
      else if isNewline b then none
      else if b = 92 then
        match _read : readEscape s with
        | none => none
        | some (bytes, rest) => (readString del rest).map fun (more, rest) => (bytes ++ more, rest)
      else (readString del s).map fun (more, rest) => (b :: more, rest)
termination_by s => s.length
decreasing_by
  · have shorter := readEscape_length _read
    simp only [List.length_cons]
    omega
  · simp only [List.length_cons]
    omega

/-! ## Long brackets -/

def closes : Nat → List UInt8 → Option (List UInt8)
  | 0, b :: s => if b = 93 then some s else none
  | n + 1, b :: s => if b = 61 then closes n s else none
  | _, [] => none

/-- What follows `[`, when a long bracket opens there: its level, and the text in it. -/
def longOpen (s : List UInt8) : Option (Nat × List UInt8) :=
  let rest := s.dropWhile (· = 61)
  if rest.head? = some 91 then some ((s.takeWhile (· = 61)).length, rest.tail) else none

/-- The text up to the bracket that closes level `n`; `paired` is a newline just read, which the other may complete. -/
def readLongFrom (n : Nat) : Option UInt8 → List UInt8 → Option (List UInt8 × List UInt8)
  | _, [] => none
  | paired, b :: s =>
      if isNewline b then
        if paired.any (· ≠ b) then readLongFrom n none s
        else (readLongFrom n (some b) s).map fun (more, rest) => (newline :: more, rest)
      else match (if b = 93 then closes n s else none) with
        | some rest => some ([], rest)
        | none => (readLongFrom n none s).map fun (more, rest) => (b :: more, rest)

/-- A newline right after the bracket is left out. -/
def readLong (n : Nat) (s : List UInt8) : Option (List UInt8 × List UInt8) :=
  match s with
  | [] => none
  | b :: s => if isNewline b then readLongFrom n (some b) s else readLongFrom n none (b :: s)

/-! ## Tokens -/

def symbolPairs : List (UInt8 × UInt8) :=
  [(61, 61), (60, 61), (60, 60), (62, 61), (62, 62), (47, 47), (126, 61), (58, 58)]

def isBlank (b : UInt8) : Bool := b = 32 || b = 9 || b = 11 || b = 12

/-- A comment, behind its two hyphens. -/
def readComment (s : List UInt8) : Option (List UInt8) :=
  match (if s.head? = some 91 then longOpen s.tail else none) with
  | some (n, rest) => (readLong n rest).map Prod.snd
  | none => some (s.dropWhile fun b => !isNewline b)

/-- `[`, or a string in long brackets. -/
def readBracket (s : List UInt8) : Option (LuaToken × List UInt8) :=
  match longOpen s with
  | some (n, rest) => (readLong n rest).map fun found => (.string found.1, found.2)
  | none => if s.head? = some 61 then none else some (.symbol [91], s)

/-- One to three points, or a numeral that begins with one. -/
def readPoint (s : List UInt8) : Option (LuaToken × List UInt8) :=
  if s.head? = some 46 then
    if s.tail.head? = some 46 then some (.symbol [46, 46, 46], s.tail.tail) else some (.symbol [46, 46], s.tail)
  else match s.head? with
    | some c => if isDigit c then readNumeral [46] c s.tail else some (.symbol [46], s)
    | none => some (.symbol [46], s)

def readSymbol (b : UInt8) (s : List UInt8) : LuaToken × List UInt8 :=
  if s.head?.any fun c => (b, c) ∈ symbolPairs then (.symbol (b :: s.take 1), s.tail) else (.symbol [b], s)

/-- The token that begins with `b`. -/
def readToken (b : UInt8) (s : List UInt8) : Option (LuaToken × List UInt8) :=
  if b = 91 then readBracket s
  else if b = 34 ∨ b = 39 then (readString b s).map fun found => (.string found.1, found.2)
  else if b = 46 then readPoint s
  else if isDigit b then readNumeral [] b s
  else if isNameStart b then some (wordToken (b :: s.takeWhile isNameRest), s.dropWhile isNameRest)
  else some (readSymbol b s)

/-- One token, blank or comment. -/
def step : List UInt8 → Option (Option LuaToken × List UInt8)
  | [] => none
  | b :: s =>
      if isNewline b then some (none, afterNewline b s)
      else if isBlank b then some (none, s)
      else if b = 45 ∧ s.head? = some 45 then (readComment s.tail).map fun rest => (none, rest)
      else (readToken b s).map fun found => (some found.1, found.2)

section Local

theorem numeralTail_local (exponent : UInt8 → Bool) (plain : exponent newline = false) (s : List UInt8) (after : Bool) :
    (numeralTail exponent after s).2 <:+ s ∧ ∀ u, (numeralTail exponent after s).2 ≠ [] ∨ u.head? = some newline →
      numeralTail exponent after (s ++ u) = ((numeralTail exponent after s).1, (numeralTail exponent after s).2 ++ u) := by
  induction s generalizing after with
  | nil =>
      refine ⟨List.suffix_refl _, fun u ends => ?_⟩
      cases u with
      | nil => rfl
      | cons b u =>
          have same : b = newline := by simpa [numeralTail] using ends
          subst same
          simp +decide [numeralTail, plain]
  | cons b s ih =>
      have onward (next : Bool) : (numeralTail exponent next s).2 <:+ b :: s := (ih next).1.trans (List.suffix_cons _ _)
      simp only [List.cons_append]
      unfold numeralTail
      dsimp only
      split
      next => exact ⟨onward false, fun u ends => by rw [(ih false).2 u ends]⟩
      split
      next => exact ⟨onward true, fun u ends => by rw [(ih true).2 u ends]⟩
      split
      next => exact ⟨onward false, fun u ends => by rw [(ih false).2 u ends]⟩
      next => exact ⟨List.suffix_refl _, fun u _ => rfl⟩

theorem AtLineEnd.or {s rest u : List UInt8} (ends : AtLineEnd s rest u) : rest ≠ [] ∨ u.head? = some newline :=
  ends.imp_right And.left

theorem head?_append_any {p : UInt8 → Bool} (plain : p newline = false) {s u : List UInt8}
    (ends : s ≠ [] ∨ u.head? = some newline) : (s ++ u).head?.any p = s.head?.any p := by
  cases s with
  | nil =>
      have head : u.head? = some newline := by simpa using ends
      simp [head, plain]
  | cons b s => rfl

theorem readNumeral_local (before : List UInt8) (first : UInt8) : LocalIf AtLineEnd (readNumeral before first) := by
  intro s token rest read
  unfold readNumeral at *
  dsimp only at *
  have later {t : List UInt8 × List UInt8} {text : List UInt8} (read : (if t.2.head?.any isNameStart || !numeralOk text
      then none else some (LuaToken.numeral text, t.2)) = some (token, rest)) : t.2 = rest ∧ ∀ u, AtLineEnd s rest u →
        (if (t.2 ++ u).head?.any isNameStart || !numeralOk text then none
          else some (LuaToken.numeral text, t.2 ++ u)) = some (token, rest ++ u) := by
    split at read
    next => cases read
    next good =>
      cases read
      refine ⟨rfl, fun u ends => ?_⟩
      rw [head?_append_any (by decide) ends.or, if_neg good]
  by_cases hex : (first = 48 && s.head?.any isX) = true
  · simp only [hex, if_true] at read
    obtain ⟨b, s, rfl⟩ : ∃ b s', s = b :: s' := by
      cases s with
      | nil => simp at hex
      | cons b s => exact ⟨b, s, rfl⟩
    obtain ⟨suffix, more⟩ := numeralTail_local isP (by decide) s false
    obtain ⟨same, later⟩ := later read
    refine ⟨same ▸ suffix.trans (List.suffix_cons _ _), fun u ends => ?_⟩
    have hex' : (first = 48 && (b :: s ++ u).head?.any isX) = true := hex
    have tail : numeralTail isP false (s ++ u) = _ := more u (by
      have := ends.or
      rwa [← same] at this)
    simp only [hex', if_true]
    rw [List.cons_append, List.tail_cons, tail, List.take_succ_cons, List.take_zero]
    exact later u ends
  · simp only [Bool.not_eq_true] at hex
    simp only [hex, Bool.false_eq_true, if_false] at read
    obtain ⟨suffix, more⟩ := numeralTail_local isE (by decide) s false
    obtain ⟨same, later⟩ := later read
    refine ⟨same ▸ suffix, fun u ends => ?_⟩
    have or := ends.or
    have present : s ≠ [] ∨ u.head? = some newline := or.imp_left fun inside empty => by
      rw [← same, empty] at inside
      exact inside rfl
    rw [← same] at or
    rw [head?_append_any (by decide) present, hex]
    simp only [Bool.false_eq_true, if_false]
    rw [more u or]
    exact later u ends

theorem readString_nil (del : UInt8) : readString del [] = none := by
  rw [readString]

/-- One byte, or one escape, of a string. -/
theorem readString_cons (del b : UInt8) (s : List UInt8) :
    readString del (b :: s) =
      if b = del then some ([], s)
      else if isNewline b then none
      else if b = 92 then
        (readEscape s).bind fun escape => (readString del escape.2).map fun (more, rest) => (escape.1 ++ more, rest)
      else (readString del s).map fun (more, rest) => (b :: more, rest) := by
  rw [readString]
  split
  next => rfl
  split
  next => rfl
  split
  next =>
    split
    next absent => rw [absent]; rfl
    next bytes rest found => rw [found]; rfl
  next => rfl

theorem readString_local (del : UInt8) : LocalIf Anyhow (readString del) := by
  intro s
  induction h : s.length using Nat.strong_induction_on generalizing s with
  | _ n ih =>
      intro x rest read
      cases s with
      | nil =>
          rw [readString_nil] at read
          cases read
      | cons b s =>
          simp only [List.cons_append, readString_cons] at read ⊢
          split at read
          next ends =>
            cases read
            exact ⟨List.suffix_cons _ _, fun _ _ => if_pos ends⟩
          next inside =>
          simp only [if_neg inside]
          split at read
          next => cases read
          next line =>
          simp only [if_neg line]
          split at read
          next escaped =>
            simp only [if_pos escaped]
            obtain ⟨⟨bytes, mid⟩, escape, read⟩ := Option.bind_eq_some_iff.mp read
            obtain ⟨⟨more, rest'⟩, found, same⟩ := Option.map_eq_some_iff.mp read
            cases same
            obtain ⟨⟨c, s', same, suffix⟩, longer⟩ := readEscape_local escape
            obtain ⟨suffix', longer'⟩ := ih mid.length (by
              have shorter := readEscape_length escape
              rw [List.length_cons] at h
              omega) mid rfl more rest' found
            have inside : mid ≠ [] := by
              intro empty
              rw [empty, readString_nil] at found
              cases found
            refine ⟨?_, fun u ends => ?_⟩
            · rw [same]
              exact suffix'.trans (suffix.trans ((List.suffix_cons _ _).trans (List.suffix_cons _ _)))
            · rw [longer u inside, Option.bind_some, longer' u ends]
              rfl
          next plain =>
            simp only [if_neg plain]
            obtain ⟨⟨more, rest'⟩, found, same⟩ := Option.map_eq_some_iff.mp read
            cases same
            obtain ⟨suffix, longer⟩ := ih s.length (by rw [List.length_cons] at h; omega) s rfl more rest' found
            refine ⟨suffix.trans (List.suffix_cons _ _), fun u ends => ?_⟩
            rw [longer u ends]
            rfl

theorem closes_local (n : Nat) {s rest : List UInt8} (read : closes n s = some rest) :
    rest <:+ s ∧ ∀ u, closes n (s ++ u) = some (rest ++ u) := by
  induction s generalizing n with
  | nil => cases n <;> cases read
  | cons b s ih =>
      cases n with
      | zero =>
          simp only [closes, List.cons_append] at *
          split at read
          next ends =>
            cases read
            exact ⟨List.suffix_cons _ _, fun _ => if_pos ends⟩
          next => cases read
      | succ n =>
          simp only [closes, List.cons_append] at *
          split at read
          next equals =>
            simp only [if_pos equals]
            exact ⟨(ih n read).1.trans (List.suffix_cons _ _), (ih n read).2⟩
          next => cases read

/-- What follows decides no earlier than the text itself whether a bracket closes, unless it is all equals signs. -/
theorem closes_none (n : Nat) {s : List UInt8} (u : List UInt8) (read : closes n s = none)
    (other : ∃ b ∈ s, b ≠ 61) : closes n (s ++ u) = none := by
  induction s generalizing n with
  | nil =>
      obtain ⟨b, held, -⟩ := other
      cases held
  | cons b s ih =>
      cases n with
      | zero =>
          simp only [closes, List.cons_append] at *
          split at read
          next => cases read
          next differs => exact if_neg differs
      | succ n =>
          simp only [closes, List.cons_append] at *
          split at read
          next equals =>
            rw [if_pos equals]
            refine ih n read ?_
            obtain ⟨c, held, differs⟩ := other
            rcases List.mem_cons.mp held with rfl | held
            · exact absurd equals differs
            · exact ⟨c, held, differs⟩
          next differs => exact if_neg differs

theorem readLongFrom_other {n : Nat} {s : List UInt8} {paired : Option UInt8} {found : List UInt8 × List UInt8}
    (read : readLongFrom n paired s = some found) : ∃ b ∈ s, b ≠ 61 := by
  induction s generalizing paired found with
  | nil => cases read
  | cons b s ih =>
      by_cases equals : b = 61
      · subst equals
        have line : isNewline 61 = false := by decide
        have bracket : ¬(61 : UInt8) = 93 := by decide
        simp only [readLongFrom, line, bracket, if_false, Bool.false_eq_true] at read
        obtain ⟨more, found, -⟩ := Option.map_eq_some_iff.mp read
        obtain ⟨c, held, differs⟩ := ih found
        exact ⟨c, List.mem_cons_of_mem _ held, differs⟩
      · exact ⟨b, List.mem_cons_self, equals⟩

theorem readLongFrom_local (n : Nat) (paired : Option UInt8) : LocalIf Anyhow (readLongFrom n paired) := by
  intro s
  induction s generalizing paired with
  | nil =>
      intro x rest read
      cases read
  | cons b s ih =>
      intro x rest read
      simp only [readLongFrom, List.cons_append] at *
      split at read
      next line =>
        simp only [if_pos line]
        split at read
        next pair =>
          simp only [if_pos pair]
          obtain ⟨suffix, longer⟩ := ih none x rest read
          exact ⟨suffix.trans (List.suffix_cons _ _), longer⟩
        next single =>
          simp only [if_neg single]
          obtain ⟨⟨more, rest'⟩, found, same⟩ := Option.map_eq_some_iff.mp read
          cases same
          obtain ⟨suffix, longer⟩ := ih (some b) more rest' found
          refine ⟨suffix.trans (List.suffix_cons _ _), fun u ends => ?_⟩
          rw [longer u ends]
          rfl
      next plain =>
        simp only [if_neg plain]
        split at read
        next rest' closed =>
          cases read
          split at closed
          next bracket =>
            obtain ⟨suffix, longer⟩ := closes_local n closed
            refine ⟨suffix.trans (List.suffix_cons _ _), fun u _ => ?_⟩
            simp only [if_pos bracket, longer u]
          next => cases closed
        next opening =>
          obtain ⟨⟨more, rest'⟩, found, same⟩ := Option.map_eq_some_iff.mp read
          cases same
          obtain ⟨suffix, longer⟩ := ih none more rest' found
          refine ⟨suffix.trans (List.suffix_cons _ _), fun u ends => ?_⟩
          have open' : (if b = 93 then closes n (s ++ u) else none) = none := by
            split at opening
            next bracket => rw [if_pos bracket, closes_none n u opening (readLongFrom_other found)]
            next other => rw [if_neg other]
          rw [open', longer u ends]
          rfl

theorem readLong_local (n : Nat) : LocalIf Anyhow (readLong n) := by
  intro s x rest read
  cases s with
  | nil => cases read
  | cons b s =>
      simp only [readLong, List.cons_append] at *
      split at read
      next line =>
        simp only [if_pos line]
        obtain ⟨suffix, longer⟩ := readLongFrom_local n (some b) s x rest read
        exact ⟨suffix.trans (List.suffix_cons _ _), longer⟩
      next plain =>
        simp only [if_neg plain]
        exact readLongFrom_local n none (b :: s) x rest read

theorem longOpen_local : LocalIf Anyhow longOpen := by
  intro s n rest read
  unfold longOpen at *
  dsimp only at *
  split at read
  next opens =>
    cases read
    have inside : s.dropWhile (fun b => decide (b = 61)) ≠ [] := by
      intro empty
      rw [empty] at opens
      cases opens
    refine ⟨(List.tail_suffix _).trans (List.dropWhile_suffix _), fun u _ => ?_⟩
    obtain ⟨taken, dropped⟩ := span_append (u := u) (.inl inside)
    rw [taken, dropped, List.head?_append_of_ne_nil _ inside, if_pos opens, List.tail_append_of_ne_nil inside]
  next => cases read

theorem longOpen_none {s u : List UInt8} (read : longOpen s = none)
    (ends : s.dropWhile (fun b => decide (b = 61)) ≠ [] ∨ u.head? = some newline) : longOpen (s ++ u) = none := by
  unfold longOpen at *
  dsimp only at *
  split at read
  next => cases read
  next other =>
    have stops : s.dropWhile (fun b => decide (b = 61)) ≠ [] ∨ ∀ b ∈ u.head?, decide (b = 61) = false := by
      refine ends.imp_right fun head b held => ?_
      rw [head] at held
      cases held
      decide
    rw [(span_append stops).2]
    refine if_neg fun opens => other ?_
    by_cases inside : s.dropWhile (fun b => decide (b = 61)) = []
    · have head := ends.resolve_left (not_not.mpr inside)
      rw [inside, List.nil_append, head] at opens
      exact absurd opens (by decide)
    · rwa [List.head?_append_of_ne_nil _ inside] at opens

theorem readComment_suffix {s rest : List UInt8} (read : readComment s = some rest) : rest <:+ s := by
  unfold readComment at read
  split at read
  next n inner opens =>
    split at opens
    next =>
      obtain ⟨⟨bytes, rest'⟩, found, rfl⟩ := Option.map_eq_some_iff.mp read
      exact (readLong_local n inner bytes rest' found).1.trans ((longOpen_local s.tail n inner opens).1.trans (List.tail_suffix _))
    next => cases opens
  next =>
    cases read
    exact List.dropWhile_suffix _

theorem head?_append_eq {c : UInt8} (plain : c ≠ newline) {s u : List UInt8} (ends : s ≠ [] ∨ u.head? = some newline) :
    (s ++ u).head? = some c ↔ s.head? = some c := by
  cases s with
  | nil =>
      have head : u.head? = some newline := by simpa using ends
      simp [head, Ne.symm plain]
  | cons b s => rfl

theorem readComment_append {s rest u : List UInt8} (read : readComment s = some rest)
    (ends : AtLineEnd s rest u) : readComment (s ++ u) = some (rest ++ u) := by
  unfold readComment at *
  split at read
  next n inner opens =>
    split at opens
    next bracket =>
      obtain ⟨⟨bytes, rest'⟩, found, rfl⟩ := Option.map_eq_some_iff.mp read
      have inside : s ≠ [] := by
        intro empty
        rw [empty] at bracket
        cases bracket
      rw [List.head?_append_of_ne_nil _ inside, if_pos bracket, List.tail_append_of_ne_nil inside,
        (longOpen_local s.tail n inner opens).2 u trivial]
      dsimp only
      rw [(readLong_local n inner bytes rest' found).2 u trivial]
      rfl
    next => cases opens
  next short =>
    cases read
    have line : s.dropWhile (fun b => !isNewline b) ≠ [] ∨ ∀ b ∈ u.head?, (!isNewline b) = false := by
      refine ends.imp_right fun head b held => ?_
      rw [head.1] at held
      cases held
      decide
    have absent : (if (s ++ u).head? = some 91 then longOpen (s ++ u).tail else none) = none := by
      cases s with
      | nil =>
          have head := ends.or.resolve_left (not_not.mpr rfl)
          rw [List.nil_append, head]
          rfl
      | cons c s =>
          by_cases bracket : c = 91
          · subst bracket
            refine longOpen_none short (ends.or.imp_left fun inside empty => inside ?_)
            have all : ∀ b ∈ s, b = 61 := by simpa using List.dropWhile_eq_nil_iff.mp empty
            refine List.dropWhile_eq_nil_iff.mpr fun b held => ?_
            rcases List.mem_cons.mp held with rfl | held
            · rfl
            · rw [all b held]
              rfl
          · exact if_neg fun same => bracket (Option.some.inj same)
    rw [absent]
    exact congrArg some (span_append line).2

theorem AtLineEnd.tail {b : UInt8} {s rest u : List UInt8} (ends : AtLineEnd (b :: s) rest u) : AtLineEnd s rest u :=
  ends.imp_right fun line => ⟨line.1, fun c held => line.2 c (List.mem_cons_of_mem _ held)⟩

/-- Where a text ends at what is left of it, nothing is left of it when it has ended. -/
theorem AtLineEnd.whole {s s' rest u : List UInt8} (ends : AtLineEnd s' rest u) (suffix : rest <:+ s) :
    s ≠ [] ∨ u.head? = some newline :=
  ends.or.imp_left fun inside empty => inside (List.suffix_nil.mp (empty ▸ suffix))

theorem LocalIf.map {ends : List UInt8 → List UInt8 → List UInt8 → Prop} {α β : Type} (f : α → β)
    {scan : List UInt8 → Option (α × List UInt8)} (nearby : LocalIf ends scan) :
    LocalIf ends fun s => (scan s).map fun found => (f found.1, found.2) := by
  intro s x rest read
  obtain ⟨⟨y, rest'⟩, found, same⟩ := Option.map_eq_some_iff.mp read
  cases same
  obtain ⟨suffix, longer⟩ := nearby s y rest' found
  refine ⟨suffix, fun u here => ?_⟩
  dsimp only
  rw [longer u here]
  rfl

theorem LocalIf.always {α : Type} {scan : List UInt8 → Option (α × List UInt8)} (nearby : LocalIf Anyhow scan) :
    LocalIf AtLineEnd scan := fun s x rest read =>
  ⟨(nearby s x rest read).1, fun u _ => (nearby s x rest read).2 u trivial⟩

theorem readBracket_local : LocalIf AtLineEnd readBracket := by
  intro s token rest read
  unfold readBracket at *
  cases opens : longOpen s with
  | some found =>
      obtain ⟨n, inner⟩ := found
      rw [opens] at read
      obtain ⟨suffix, longer⟩ := longOpen_local s n inner opens
      obtain ⟨suffix', longer'⟩ := (readLong_local n).map LuaToken.string inner token rest read
      refine ⟨suffix'.trans suffix, fun u _ => ?_⟩
      rw [longer u trivial]
      exact longer' u trivial
  | none =>
      rw [opens] at read
      dsimp only at read
      split at read
      next => cases read
      next single =>
        cases read
        refine ⟨List.suffix_refl _, fun u ends => ?_⟩
        have or := ends.or
        rw [longOpen_none opens]
        · exact if_neg fun same => single ((head?_append_eq (by decide) or).mp same)
        · refine or.imp_left fun inside empty => ?_
          cases s with
          | nil => exact inside rfl
          | cons b s =>
              have equals := List.dropWhile_eq_nil_iff.mp empty b List.mem_cons_self
              exact single (congrArg some (of_decide_eq_true equals))

theorem readPoint_local : LocalIf AtLineEnd readPoint := by
  intro s token rest read
  unfold readPoint at *
  cases s with
  | nil =>
      cases read
      refine ⟨List.suffix_refl _, fun u ends => ?_⟩
      have head : u.head? = some newline := ends.or.resolve_left (not_not.mpr rfl)
      rw [List.nil_append, head, if_neg (by decide)]
      rfl
  | cons c s =>
      split at read
      next second =>
        have second' (u : List UInt8) : (c :: s ++ u).head? = some 46 := second
        simp only [if_pos (second' _)]
        split at read
        next third =>
          cases read
          cases s with
          | nil => cases third
          | cons d s => exact ⟨(List.suffix_cons _ _).trans (List.suffix_cons _ _), fun u _ => if_pos third⟩
        next pair =>
          cases read
          refine ⟨List.suffix_cons _ _, fun u ends => ?_⟩
          exact if_neg fun third => pair ((head?_append_eq (by decide) ends.or).mp third)
      next single =>
        have single' (u : List UInt8) : ¬(c :: s ++ u).head? = some 46 := single
        simp only [if_neg (single' _)]
        dsimp only [List.head?_cons, List.tail_cons, List.cons_append] at *
        split at read
        next digit =>
          obtain ⟨suffix, longer⟩ := readNumeral_local [46] c s token rest read
          refine ⟨suffix.trans (List.suffix_cons _ _), fun u ends => ?_⟩
          rw [if_pos digit]
          exact longer u ends.tail
        next other =>
          cases read
          exact ⟨List.suffix_refl _, fun u _ => if_neg other⟩

theorem newline_pairs_nothing (b : UInt8) : decide ((b, newline) ∈ symbolPairs) = false :=
  decide_eq_false fun held => by
    have second := List.all_eq_true.mp (show symbolPairs.all (fun pair => pair.2 != newline) = true by decide)
    exact absurd (second _ held) (by simp)

theorem readSymbol_local {b : UInt8} {s rest : List UInt8} {token : LuaToken} (read : readSymbol b s = (token, rest)) :
    rest <:+ s ∧ ∀ u, AtLineEnd s rest u → readSymbol b (s ++ u) = (token, rest ++ u) := by
  unfold readSymbol at *
  split at read
  next pair =>
    cases read
    cases s with
    | nil => cases pair
    | cons c s => exact ⟨List.suffix_cons _ _, fun u _ => if_pos pair⟩
  next single =>
    cases read
    refine ⟨List.suffix_refl _, fun u ends => ?_⟩
    rw [head?_append_any (newline_pairs_nothing b) ends.or, if_neg single]

theorem readToken_local (b : UInt8) : LocalIf AtLineEnd (readToken b) := by
  intro s token rest read
  unfold readToken at *
  split at read
  next bracket =>
    simp only [if_pos bracket]
    exact readBracket_local s token rest read
  next other =>
  simp only [if_neg other]
  split at read
  next quoted =>
    simp only [if_pos quoted]
    exact ((readString_local b).map LuaToken.string).always s token rest read
  next other =>
  simp only [if_neg other]
  split at read
  next point =>
    simp only [if_pos point]
    exact readPoint_local s token rest read
  next other =>
  simp only [if_neg other]
  split at read
  next digit =>
    simp only [if_pos digit]
    exact readNumeral_local [] b s token rest read
  next other =>
  simp only [if_neg other]
  split at read
  next letter =>
    simp only [if_pos letter]
    cases read
    refine ⟨List.dropWhile_suffix _, fun u ends => ?_⟩
    obtain ⟨taken, dropped⟩ := span_append (p := isNameRest) (u := u) (ends.or.imp_right fun head c held => by
      rw [head] at held
      cases held
      decide)
    rw [taken, dropped]
  next other =>
    simp only [if_neg other, Option.some.injEq] at read ⊢
    exact readSymbol_local read

/-- Everything `step` can do behind its first byte, and what it then does of a longer text. -/
theorem step_local {b : UInt8} {s rest : List UInt8} {token : Option LuaToken} (read : step (b :: s) = some (token, rest)) :
    rest <:+ s ∧ ∀ u, AtLineEnd (b :: s) rest u → step (b :: s ++ u) = some (token, rest ++ u) := by
  simp only [step, List.cons_append] at *
  split at read
  next line =>
    cases read
    refine ⟨afterNewline_suffix b s, fun u ends => ?_⟩
    rw [if_pos line]
    have inside : afterNewline b s ≠ [] := ends.resolve_right fun single =>
      Bool.noConfusion (line.symm.trans (single.2 b List.mem_cons_self))
    rw [afterNewline_append u inside]
  next plain =>
  simp only [if_neg plain]
  split at read
  next blank =>
    cases read
    exact ⟨List.suffix_refl _, fun u _ => if_pos blank⟩
  next black =>
  simp only [if_neg black]
  split at read
  next comment =>
    obtain ⟨found, read, same⟩ := Option.map_eq_some_iff.mp read
    cases same
    have suffix := readComment_suffix read
    refine ⟨suffix.trans (List.tail_suffix _), fun u ends => ?_⟩
    have inside : s ≠ [] := by
      intro empty
      rw [empty] at comment
      cases comment.2
    have tail : AtLineEnd s.tail rest u := ends.imp_right fun line =>
      ⟨line.1, fun c held => line.2 c (List.mem_cons_of_mem _ (List.mem_of_mem_tail held))⟩
    rw [List.head?_append_of_ne_nil _ inside, if_pos comment, List.tail_append_of_ne_nil inside,
      readComment_append read tail]
    rfl
  next code =>
    obtain ⟨suffix, longer⟩ := (readToken_local b).map some s token rest read
    refine ⟨suffix, fun u ends => ?_⟩
    have code' : ¬(b = 45 ∧ (s ++ u).head? = some 45) := fun comment =>
      code ⟨comment.1, (head?_append_eq (by decide) (ends.whole suffix)).mp comment.2⟩
    rw [if_neg code']
    exact longer u ends.tail

end Local

theorem step_length {s rest : List UInt8} {token : Option LuaToken} (read : step s = some (token, rest)) :
    rest.length < s.length := by
  cases s with
  | nil => cases read
  | cons b s => exact Nat.lt_succ_of_le (step_local read).1.length_le

/-- The tokens of a text; none when it is not one Lua can read. -/
def lex (s : List UInt8) : Option (List LuaToken) :=
  if s = [] then some []
  else match _read : step s with
    | none => none
    | some (token, rest) => (lex rest).map fun tokens => token.toList ++ tokens
termination_by s.length
decreasing_by exact step_length _read

end Lua

end Budyk.Lib
