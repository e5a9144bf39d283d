import Budyk.Lib.LuaLexer

/-! Texts that mean the same tokens whatever follows them, so that code can be put together from them. -/

namespace Budyk.Lib.Lua

theorem before_nothing (tokens : Option (List LuaToken)) : tokens.map (([] : List LuaToken) ++ ·) = tokens := by
  cases tokens <;> rfl

theorem before_before (first second : List LuaToken) (tokens : Option (List LuaToken)) :
    (tokens.map (second ++ ·)).map (first ++ ·) = tokens.map (first ++ second ++ ·) := by
  cases tokens with
  | none => rfl
  | some tokens => exact congrArg some (List.append_assoc _ _ _).symm

theorem lex_nil : lex [] = some [] := by
  rw [lex, if_pos rfl]

theorem lex_step {s rest : List UInt8} {token : Option LuaToken} (read : step s = some (token, rest)) :
    lex s = (lex rest).map (token.toList ++ ·) := by
  have inside : s ≠ [] := by
    rintro rfl
    cases read
  rw [lex, if_neg inside]
  split
  next absent =>
    rw [absent] at read
    cases read
  next token' rest' found =>
    rw [found] at read
    cases read
    rfl

theorem lex_some {s : List UInt8} {tokens : List LuaToken} (inside : s ≠ []) (read : lex s = some tokens) :
    ∃ token rest more, step s = some (token, rest) ∧ lex rest = some more ∧ tokens = token.toList ++ more := by
  rw [lex, if_neg inside] at read
  split at read
  next => cases read
  next token rest found =>
    obtain ⟨more, later, same⟩ := Option.map_eq_some_iff.mp read
    exact ⟨token, rest, more, found, later, same.symm⟩

/-- A newline takes the other newline byte with it, which would else be one of its own. -/
theorem lex_newline {b : UInt8} (line : isNewline b = true) (s : List UInt8) : lex (b :: s) = lex s := by
  have first (s : List UInt8) : step (b :: s) = some (none, afterNewline b s) := if_pos line
  induction s generalizing b with
  | nil => exact (lex_step (first [])).trans (before_nothing _)
  | cons c s ih =>
      rw [lex_step (first (c :: s)), afterNewline]
      split
      next pair =>
        rw [Bool.and_eq_true] at pair
        rw [ih pair.1 fun s => if_pos pair.1]
        exact before_nothing _
      next => exact before_nothing _

/-- The text is these tokens, and leaves what follows it as it is. -/
def Splices (s : List UInt8) (tokens : List LuaToken) : Prop := ∀ u, lex (s ++ u) = (lex u).map (tokens ++ ·)

theorem Splices.nil : Splices [] [] := fun _ => (before_nothing _).symm

theorem Splices.append {s s' : List UInt8} {tokens tokens' : List LuaToken} (first : Splices s tokens)
    (second : Splices s' tokens') : Splices (s ++ s') (tokens ++ tokens') := by
  intro u
  rw [List.append_assoc, first, second, before_before]

theorem Splices.step {s : List UInt8} (token : Option LuaToken) (read : ∀ u, step (s ++ u) = some (token, u)) :
    Splices s token.toList := fun u => lex_step (read u)

theorem Splices.lex {s : List UInt8} {tokens : List LuaToken} (splices : Splices s tokens) : lex s = some tokens := by
  have whole := splices []
  rwa [List.append_nil, lex_nil, Option.map_some, List.append_nil] at whole

theorem Splices.newline : Splices [newline] [] := fun u => (lex_newline rfl u).trans (before_nothing _).symm

/-! ## Literals -/

/-- A byte that is a token, or a blank, whatever comes after it. -/
def isAlone (b : UInt8) : Bool := [32, 40, 41, 44, 123, 125].contains b

def aloneToken (b : UInt8) : Option LuaToken := if b = 32 then none else some (.symbol [b])

theorem step_alone {b : UInt8} (alone : isAlone b = true) (s : List UInt8) : step (b :: s) = some (aloneToken b, s) := by
  have ways : b = 32 ∨ b = 40 ∨ b = 41 ∨ b = 44 ∨ b = 123 ∨ b = 125 := by simpa [isAlone] using alone
  have unpaired : (∀ c, decide ((b, c) ∈ symbolPairs) = false) := by
    intro c
    refine decide_eq_false fun held => ?_
    have first := List.all_eq_true.mp (show symbolPairs.all (fun pair => !isAlone pair.1) = true by decide)
    have other := first _ held
    rw [alone] at other
    cases other
  have symbol : readSymbol b s = (.symbol [b], s) := by
    unfold readSymbol
    refine if_neg ?_
    cases s <;> simp [unpaired]
  rcases ways with rfl | rfl | rfl | rfl | rfl | rfl
  · rfl
  all_goals exact congrArg (fun found : LuaToken × List UInt8 => some (some found.1, found.2)) symbol

/-- The tokens of a text whose last byte, after `n` steps, stands alone. -/
def literal : Nat → List UInt8 → Option (List LuaToken)
  | 0, [b] => if isAlone b then some (aloneToken b).toList else none
  | 0, _ => none
  | n + 1, s =>
      match step s with
      | none => none
      | some (token, rest) => (literal n rest).map (token.toList ++ ·)

theorem literal_nil (n : Nat) : literal n [] = none := by
  cases n <;> rfl

theorem splices_literal (n : Nat) {s : List UInt8} {tokens : List LuaToken} (read : literal n s = some tokens) :
    Splices s tokens := by
  induction n generalizing s tokens with
  | zero =>
      match s, read with
      | [b], read =>
          rw [literal] at read
          split at read
          next alone =>
            cases read
            exact Splices.step (aloneToken b) fun u => step_alone alone u
          next => cases read
  | succ n ih =>
      rw [literal] at read
      split at read
      next => cases read
      next token rest found =>
        obtain ⟨more, later, rfl⟩ := Option.map_eq_some_iff.mp read
        intro u
        cases s with
        | nil => cases found
        | cons b s =>
            have inside : rest ≠ [] := by
              rintro rfl
              rw [literal_nil] at later
              cases later
            rw [lex_step ((step_local found).2 u (.inl inside)), ih later u, before_before]

/-! ## Lines, strings and numbers -/

/-- A text of one line, with the newline that ends even a comment in it. -/
theorem splices_line {s : List UInt8} {tokens : List LuaToken} (read : lex s = some tokens)
    (line : ∀ b ∈ s, isNewline b = false) : Splices (s ++ [newline]) tokens := by
  induction h : s.length using Nat.strong_induction_on generalizing s tokens with
  | _ n ih =>
      intro u
      rw [List.append_assoc, List.singleton_append]
      cases s with
      | nil =>
          rw [lex_nil] at read
          cases read
          exact (lex_newline rfl u).trans (before_nothing _).symm
      | cons b s =>
          obtain ⟨token, rest, more, found, later, rfl⟩ := lex_some (List.cons_ne_nil _ _) read
          obtain ⟨suffix, longer⟩ := step_local found
          have shorter : rest.length < n := h ▸ Nat.lt_succ_of_le suffix.length_le
          have below := ih rest.length shorter later (fun c held => line c (List.mem_cons_of_mem _ (suffix.subset held))) rfl u
          rw [List.append_assoc, List.singleton_append] at below
          rw [lex_step (longer (newline :: u) (.inr ⟨rfl, line⟩)), below, before_before]

theorem splices_string {content bytes : List UInt8}
    (read : ∀ u, readString 34 (content ++ 34 :: u) = some (bytes, u)) :
    Splices (34 :: content ++ [34]) [.string bytes] := by
  refine Splices.step (some (.string bytes)) fun u => ?_
  rw [List.append_assoc, List.cons_append, List.singleton_append]
  have quoted : readToken 34 (content ++ 34 :: u) = (readString 34 (content ++ 34 :: u)).map fun found =>
    (.string found.1, found.2) := rfl
  have plain : step (34 :: (content ++ 34 :: u)) = (readToken 34 (content ++ 34 :: u)).map fun found =>
    (some found.1, found.2) := rfl
  rw [plain, quoted, read u]
  rfl

theorem digit_reads : ∀ d < 10, isE (digit d) = false ∧ isX (digit d) = false ∧ isHex (digit d) = true ∧
    isDigit (digit d) = true ∧ digit d ≠ 46 := by decide

theorem digit_begins : ∀ d < 10, isNewline (digit d) = false ∧ isBlank (digit d) = false ∧ digit d ≠ 45 ∧ digit d ≠ 91 ∧
    ¬(digit d = 34 ∨ digit d = 39) := by decide

theorem numeralTail_digits {digits : List UInt8} (decimal : ∀ b ∈ digits, ∃ d < 10, b = digit d) (u : List UInt8) :
    numeralTail isE false (digits ++ 44 :: u) = (digits, 44 :: u) := by
  induction digits with
  | nil => rfl
  | cons b digits ih =>
      obtain ⟨d, small, rfl⟩ := decimal b List.mem_cons_self
      obtain ⟨notE, -, hex, -, -⟩ := digit_reads d small
      rw [List.cons_append, numeralTail]
      simp [notE, hex, ih fun b held => decimal b (List.mem_cons_of_mem _ held)]

theorem numeralOk_digits {digits : List UInt8} (present : digits ≠ []) (decimal : ∀ b ∈ digits, ∃ d < 10, b = digit d) :
    numeralOk digits = true := by
  have all : ∀ b ∈ digits, isDigit b = true := by
    intro b held
    obtain ⟨d, small, rfl⟩ := decimal b held
    exact (digit_reads d small).2.2.2.1
  have plain : ¬(digits.head? = some 48 ∧ digits.tail.head?.any isX = true) := by
    rintro ⟨-, x⟩
    obtain ⟨b, held, isX⟩ := (Option.any_eq_true _ _).mp x
    obtain ⟨d, small, rfl⟩ := decimal b (List.mem_of_mem_tail (List.mem_of_head? held))
    rw [(digit_reads d small).2.1] at isX
    cases isX
  have whole : digits.takeWhile isDigit = digits := List.takeWhile_eq_self_iff.mpr all
  have rest : digits.dropWhile isDigit = [] := List.dropWhile_eq_nil_iff.mpr all
  rw [numeralOk, if_neg plain, mantissaOk]
  simp [whole, rest, present, exponentOk]

theorem splices_digits {digits : List UInt8} (present : digits ≠ []) (decimal : ∀ b ∈ digits, ∃ d < 10, b = digit d) :
    Splices (digits ++ [44]) [.numeral digits, .symbol [44]] := by
  intro u
  rw [List.append_assoc, List.singleton_append]
  have reads : step (digits ++ 44 :: u) = some (some (.numeral digits), 44 :: u) := by
    cases digits with
    | nil => exact absurd rfl present
    | cons b digits =>
        have later : ∀ c ∈ digits, ∃ d < 10, c = digit d := fun c held => decimal c (List.mem_cons_of_mem _ held)
        have plain : (digits ++ 44 :: u).head?.any isX = false := by
          cases digits with
          | nil => rfl
          | cons c digits =>
              obtain ⟨d, small, rfl⟩ := later c List.mem_cons_self
              exact (digit_reads d small).2.1
        have ok := numeralOk_digits present decimal
        obtain ⟨d, small, rfl⟩ := decimal b List.mem_cons_self
        obtain ⟨line, blank, minus, bracket, quote⟩ := digit_begins d small
        obtain ⟨-, -, -, isDigit, point⟩ := digit_reads d small
        have numeral : readNumeral [] (digit d) (digits ++ 44 :: u) = some (.numeral (digit d :: digits), 44 :: u) := by
          simp only [readNumeral, plain, Bool.and_false, Bool.false_eq_true, if_false, numeralTail_digits later u,
            List.nil_append, List.singleton_append, ok]
          rfl
        rw [List.cons_append]
        simp only [step, readToken, line, blank, minus, bracket, quote, point, isDigit, numeral, Bool.false_eq_true,
          false_and, if_false, if_true]
        rfl
  rw [lex_step reads, lex_step (step_alone (b := 44) rfl u), before_before]
  rfl

end Budyk.Lib.Lua
