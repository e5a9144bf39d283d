import Budyk.Lib.Utf8

/-! JSON texts (RFC 8259) as bytes: what stands between the quotes of a string and the text it denotes, and a
strict reader of whole texts. -/

namespace Budyk.Lib

abbrev quote : UInt8 := 34
abbrev backslash : UInt8 := 92

def hexValue (b : UInt8) : Option Nat :=
  if 48 ≤ b && b ≤ 57 then some (b.toNat - 48)
  else if 97 ≤ b && b ≤ 102 then some (b.toNat - 87)
  else if 65 ≤ b && b ≤ 70 then some (b.toNat - 55)
  else none

def hexNumber (digits : List UInt8) : Option Nat :=
  digits.foldlM (fun value b => (hexValue b).map (16 * value + ·)) 0

/-- What `\` and the letter stand for. -/
def shortForm (c : UInt8) : Option UInt8 :=
  if c = quote || c = backslash || c = 47 then some c
  else if c = 98 then some 8
  else if c = 102 then some 12
  else if c = 110 then some newline
  else if c = 114 then some carriageReturn
  else if c = 116 then some tab
  else none

/-- A character past U+FFFF as two surrogates. -/
def surrogates (c : Char) : Nat × Nat := (0xd800 + (c.toNat - 0x10000) / 0x400, 0xdc00 + (c.toNat - 0x10000) % 0x400)

/-- The text between the quotes, and the bytes of the characters it denotes. -/
inductive StringContent : List UInt8 → List UInt8 → Prop
  | nil : StringContent [] []
  | plain {b : UInt8} {content value : List UInt8} : 32 ≤ b → b ≠ quote → b ≠ backslash →
      StringContent content value → StringContent (b :: content) (b :: value)
  | short {c b : UInt8} {content value : List UInt8} : shortForm c = some b →
      StringContent content value → StringContent (backslash :: c :: content) (b :: value)
  | unicode {h₁ h₂ h₃ h₄ : UInt8} {c : Char} {content value : List UInt8} :
      hexNumber [h₁, h₂, h₃, h₄] = some c.toNat → StringContent content value →
      StringContent (backslash :: 117 :: h₁ :: h₂ :: h₃ :: h₄ :: content) (String.utf8EncodeChar c ++ value)
  | pair {h₁ h₂ h₃ h₄ l₁ l₂ l₃ l₄ : UInt8} {c : Char} {content value : List UInt8} : 0x10000 ≤ c.toNat →
      hexNumber [h₁, h₂, h₃, h₄] = some (surrogates c).1 → hexNumber [l₁, l₂, l₃, l₄] = some (surrogates c).2 →
      StringContent content value →
      StringContent (backslash :: 117 :: h₁ :: h₂ :: h₃ :: h₄ :: backslash :: 117 :: l₁ :: l₂ :: l₃ :: l₄ :: content)
        (String.utf8EncodeChar c ++ value)

theorem StringContent.append {first second value others : List UInt8} (one : StringContent first value)
    (two : StringContent second others) : StringContent (first ++ second) (value ++ others) := by
  induction one with
  | nil => exact two
  | plain least noQuote noBackslash _ ih => exact .plain least noQuote noBackslash ih
  | short form _ ih => exact .short form ih
  | unicode code _ ih =>
      rw [List.append_assoc]
      exact .unicode code ih
  | pair high first second _ ih =>
      rw [List.append_assoc]
      exact .pair high first second ih

def plainBytes (bytes : List UInt8) : Bool := bytes.all fun b => 32 ≤ b && b ≠ quote && b ≠ backslash

/-- Text without a quote, a backslash or a control character denotes itself. -/
theorem StringContent.self {bytes : List UInt8} (plain : plainBytes bytes = true) : StringContent bytes bytes := by
  induction bytes with
  | nil => exact .nil
  | cons b rest ih =>
      simp only [plainBytes, List.all_cons, Bool.and_eq_true, decide_eq_true_eq] at plain ih
      exact .plain plain.1.1.1 plain.1.1.2 plain.1.2 (ih plain.2)

theorem hexValue_range {b : UInt8} {d : Nat} (value : hexValue b = some d) :
    (32 ≤ b ∧ b < 128) ∧ b ≠ quote ∧ b ≠ backslash := by
  simp only [← UInt8.toNat_inj, UInt8.le_iff_toNat_le, UInt8.lt_iff_toNat_lt, ne_eq, quote, backslash]
  simp only [hexValue, UInt8.le_iff_toNat_le, Bool.and_eq_true, decide_eq_true_eq, UInt8.reduceToNat] at value ⊢
  split at value
  · omega
  · split at value
    · omega
    · split at value
      · omega
      · cases value

theorem hexNumber_digits {digits : List UInt8} {n : Nat} (number : hexNumber digits = some n) :
    ∀ b ∈ digits, ∃ d, hexValue b = some d := by
  unfold hexNumber at number
  generalize 0 = start at number
  induction digits generalizing start with
  | nil => simp
  | cons b rest ih =>
      rw [List.foldlM_cons, Option.bind_eq_bind, Option.bind_eq_some_iff] at number
      obtain ⟨next, first, others⟩ := number
      obtain ⟨d, value, _⟩ := Option.map_eq_some_iff.mp first
      intro c held
      rcases List.mem_cons.mp held with rfl | later
      · exact ⟨d, value⟩
      · exact ih next others c later

theorem hexNumber_plain {digits : List UInt8} {n : Nat} (number : hexNumber digits = some n) :
    ∀ b ∈ digits, (32 ≤ b ∧ b < 128) ∧ b ≠ quote ∧ b ≠ backslash := by
  intro b held
  obtain ⟨d, value⟩ := hexNumber_digits number b held
  exact hexValue_range value

/-- Text in which a quote stands only after a backslash, and no backslash stands last. -/
inductive Escaped : List UInt8 → Prop
  | nil : Escaped []
  | plain {b : UInt8} {rest : List UInt8} : b ≠ quote → b ≠ backslash → Escaped rest → Escaped (b :: rest)
  | escape (c : UInt8) {rest : List UInt8} : Escaped rest → Escaped (backslash :: c :: rest)

theorem Escaped.append_plain {bytes rest : List UInt8} (plain : ∀ b ∈ bytes, b ≠ quote ∧ b ≠ backslash)
    (escaped : Escaped rest) : Escaped (bytes ++ rest) := by
  induction bytes with
  | nil => exact escaped
  | cons b bytes ih =>
      have head := plain b List.mem_cons_self
      exact .plain head.1 head.2 (ih fun c held => plain c (List.mem_cons_of_mem _ held))

theorem StringContent.escaped {content value : List UInt8} (denotes : StringContent content value) : Escaped content := by
  induction denotes with
  | nil => exact .nil
  | plain _ noQuote noBackslash _ ih => exact .plain noQuote noBackslash ih
  | short _ _ ih => exact .escape _ ih
  | unicode code _ ih =>
      exact .escape _ (Escaped.append_plain (fun b held => (hexNumber_plain code b held).2) ih)
  | pair _ high low _ ih =>
      have lower := Escaped.append_plain (fun b held => (hexNumber_plain low b held).2) ih
      exact .escape _ (Escaped.append_plain (fun b held => (hexNumber_plain high b held).2) (.escape _ lower))

/-- No control character stands in a string. -/
theorem StringContent.printable {content value : List UInt8} (denotes : StringContent content value) :
    ∀ b ∈ content, 32 ≤ b := by
  have hex : ∀ {digits : List UInt8} {n : Nat}, hexNumber digits = some n → ∀ b ∈ digits, 32 ≤ b :=
    fun number b held => (hexNumber_plain number b held).1.1
  induction denotes with
  | nil => simp
  | plain least _ _ _ ih => simpa using ⟨least, ih⟩
  | @short c _ _ _ form _ ih =>
      have least : 32 ≤ c := by
        simp only [shortForm, Bool.or_eq_true, decide_eq_true_eq] at form
        split at form
        next known => rcases known with (rfl | rfl) | rfl <;> decide
        repeat' split at form
        all_goals first | (subst_vars; decide) | cases form
      simpa using ⟨by decide, least, ih⟩
  | unicode code _ ih =>
      have digits := hex code
      simp only [List.forall_mem_cons] at digits ⊢
      exact ⟨by decide, by decide, digits.1, digits.2.1, digits.2.2.1, digits.2.2.2.1, ih⟩
  | pair _ high low _ ih =>
      have upper := hex high
      have lower := hex low
      simp only [List.forall_mem_cons] at upper lower ⊢
      exact ⟨by decide, by decide, upper.1, upper.2.1, upper.2.2.1, upper.2.2.2.1, by decide, by decide, lower.1,
        lower.2.1, lower.2.2.1, lower.2.2.2.1, ih⟩

/-! The reader of strings. -/

private def prepend (start : List UInt8) (read : Option (List UInt8 × List UInt8)) : Option (List UInt8 × List UInt8) :=
  read.map fun (value, rest) => (start ++ value, rest)

def encodeScalar (code : Nat) : Option (List UInt8) :=
  if code.isValidChar then some (String.utf8EncodeChar (Char.ofNat code)) else none

/-- A string read from after its opening quote; with the text after its closing quote. -/
def readString : List UInt8 → Option (List UInt8 × List UInt8)
  | [] => none
  | b :: rest =>
      if b = quote then some ([], rest)
      else if b < 32 then none
      else if b ≠ backslash then prepend [b] (readString rest)
      else match rest with
        | [] => none
        | c :: rest =>
            if c ≠ 117 then (shortForm c).bind fun b => prepend [b] (readString rest)
            else match rest with
              | h₁ :: h₂ :: h₃ :: h₄ :: rest => (hexNumber [h₁, h₂, h₃, h₄]).bind fun code =>
                  if 0xd800 ≤ code ∧ code < 0xdc00 then
                    match rest with
                    | b :: c :: l₁ :: l₂ :: l₃ :: l₄ :: rest => (hexNumber [l₁, l₂, l₃, l₄]).bind fun low =>
                        if (b = backslash ∧ c = 117) ∧ 0xdc00 ≤ low ∧ low < 0xe000 then
                          (encodeScalar (0x10000 + (code - 0xd800) * 0x400 + (low - 0xdc00))).bind fun char =>
                            prepend char (readString rest)
                        else none
                    | _ => none
                  else (encodeScalar code).bind fun char => prepend char (readString rest)
              | _ => none

theorem encodeScalar_char (c : Char) : encodeScalar c.toNat = some (String.utf8EncodeChar c) := by
  have valid : c.toNat.isValidChar := c.valid
  rw [encodeScalar, if_pos valid, Char.ofNat_toNat]

theorem surrogates_range (c : Char) (high : 0x10000 ≤ c.toNat) :
    (0xd800 ≤ (surrogates c).1 ∧ (surrogates c).1 < 0xdc00) ∧ (0xdc00 ≤ (surrogates c).2 ∧ (surrogates c).2 < 0xe000) ∧
      0x10000 + ((surrogates c).1 - 0xd800) * 0x400 + ((surrogates c).2 - 0xdc00) = c.toNat := by
  have range := char_range c
  simp only [surrogates]
  omega

theorem readString_quote (rest : List UInt8) : readString (quote :: rest) = some ([], rest) := by
  rw [readString.eq_def]
  rfl

theorem readString_plain {b : UInt8} (least : 32 ≤ b) (noQuote : b ≠ quote) (noBackslash : b ≠ backslash) (s : List UInt8) :
    readString (b :: s) = prepend [b] (readString s) := by
  have notControl : ¬b < 32 := by
    rw [UInt8.lt_iff_toNat_lt]
    exact Nat.not_lt.mpr least
  rw [readString.eq_def]
  simp only [noQuote, notControl, noBackslash, if_false, if_true, ne_eq, not_false_eq_true]

theorem readString_pair {h₁ h₂ h₃ h₄ l₁ l₂ l₃ l₄ : UInt8} {upper lower : Nat} (s : List UInt8)
    (high : hexNumber [h₁, h₂, h₃, h₄] = some upper) (low : hexNumber [l₁, l₂, l₃, l₄] = some lower)
    (first : 0xd800 ≤ upper ∧ upper < 0xdc00) (second : 0xdc00 ≤ lower ∧ lower < 0xe000) :
    readString (backslash :: 117 :: h₁ :: h₂ :: h₃ :: h₄ :: backslash :: 117 :: l₁ :: l₂ :: l₃ :: l₄ :: s) =
      (encodeScalar (0x10000 + (upper - 0xd800) * 0x400 + (lower - 0xdc00))).bind fun char =>
        prepend char (readString s) := by
  rw [readString.eq_def]
  simp [high, low, first, second, quote, backslash]

theorem readString_content {content value : List UInt8} (denotes : StringContent content value) (rest : List UInt8) :
    readString (content ++ quote :: rest) = some (value, rest) := by
  induction denotes with
  | nil => exact readString_quote rest
  | plain least noQuote noBackslash _ ih =>
      rw [List.cons_append, readString_plain least noQuote noBackslash, ih]
      rfl
  | @short c _ _ _ form _ ih =>
      have other : c ≠ 117 := by
        rintro rfl
        simp [shortForm, quote, backslash] at form
      rw [readString.eq_def]
      simp [other, form, ih, prepend, quote, backslash]
  | @unicode h₁ h₂ h₃ h₄ c _ _ code _ ih =>
      have range := char_range c
      have single : ¬(0xd800 ≤ c.toNat ∧ c.toNat < 0xdc00) := by omega
      rw [readString.eq_def]
      simp [code, single, encodeScalar_char, ih, prepend, quote, backslash]
  | @pair h₁ h₂ h₃ h₄ l₁ l₂ l₃ l₄ c _ _ past high low _ ih =>
      obtain ⟨first, second, whole⟩ := surrogates_range c past
      simp only [List.cons_append]
      rw [readString_pair _ high low first second, whole, encodeScalar_char, Option.bind_some, ih]
      rfl

/-! Values. -/

inductive Json
  | null
  | bool (b : Bool)
  | number (digits : List UInt8)
  | string (value : List UInt8)
  | array (items : List Json)
  | object (members : List (List UInt8 × Json))

def jsonBlank (b : UInt8) : Bool := b = 32 || b = tab || b = newline || b = carriageReturn

def skipBlanks (s : List UInt8) : List UInt8 := s.dropWhile jsonBlank

/-- The text after the byte, when it is the next one. -/
def expect (b : UInt8) (s : List UInt8) : Option (List UInt8) := if s.head? = some b then some s.tail else none

def skipDigits (s : List UInt8) : Option (List UInt8) :=
  if s.takeWhile isDigit = [] then none else some (s.dropWhile isDigit)

def skipFraction (s : List UInt8) : Option (List UInt8) :=
  match expect 46 s with
  | some rest => skipDigits rest
  | none => some s

def skipExponent (s : List UInt8) : Option (List UInt8) :=
  match (expect 101 s).or (expect 69 s) with
  | some rest => skipDigits (((expect 43 rest).or (expect 45 rest)).getD rest)
  | none => some s

def skipNumber (s : List UInt8) : Option (List UInt8) :=
  let s := (expect 45 s).getD s
  ((expect 48 s).or (skipDigits s)).bind fun rest => (skipFraction rest).bind skipExponent

def readScalar (s : List UInt8) : Option (Json × List UInt8) :=
  if (text "null").isPrefixOf s then some (.null, s.drop 4)
  else if (text "true").isPrefixOf s then some (.bool true, s.drop 4)
  else if (text "false").isPrefixOf s then some (.bool false, s.drop 5)
  else (skipNumber s).map fun rest => (.number (s.take (s.length - rest.length)), rest)

mutual

/-- A value and the text after it; `fuel` bounds how deep the calls go. -/
def readValue : Nat → List UInt8 → Option (Json × List UInt8)
  | 0, _ => none
  | fuel + 1, s =>
      let s := skipBlanks s
      match expect quote s, expect 123 s, expect 91 s with
      | some rest, _, _ => (readString rest).map fun (value, rest) => (.string value, rest)
      | _, some rest, _ =>
          match expect 125 (skipBlanks rest) with
          | some rest => some (.object [], rest)
          | none => (readMembers fuel rest).map fun (members, rest) => (.object members, rest)
      | _, _, some rest =>
          match expect 93 (skipBlanks rest) with
          | some rest => some (.array [], rest)
          | none => (readItems fuel rest).map fun (items, rest) => (.array items, rest)
      | none, none, none => readScalar s

def readItems : Nat → List UInt8 → Option (List Json × List UInt8)
  | 0, _ => none
  | fuel + 1, s =>
      (readValue fuel s).bind fun (item, rest) =>
        match expect 44 (skipBlanks rest) with
        | some rest => (readItems fuel rest).map fun (items, rest) => (item :: items, rest)
        | none => (expect 93 (skipBlanks rest)).map fun rest => ([item], rest)

def readMembers : Nat → List UInt8 → Option (List (List UInt8 × Json) × List UInt8)
  | 0, _ => none
  | fuel + 1, s =>
      (expect quote (skipBlanks s)).bind fun rest => (readString rest).bind fun (key, rest) =>
        (expect 58 (skipBlanks rest)).bind fun rest => (readValue fuel rest).bind fun (value, rest) =>
          match expect 44 (skipBlanks rest) with
          | some rest => (readMembers fuel rest).map fun (members, rest) => ((key, value) :: members, rest)
          | none => (expect 125 (skipBlanks rest)).map fun rest => ([(key, value)], rest)

end

/-- The value of a whole JSON text. -/
def readJson (s : List UInt8) : Option Json :=
  (readValue (s.length + 1) s).bind fun (value, rest) => if skipBlanks rest = [] then some value else none

/-! What the reader does with text as a program writes it, without blanks. -/

@[simp] theorem expect_cons (b : UInt8) (rest : List UInt8) : expect b (b :: rest) = some rest := by simp [expect]

theorem expect_other {b c : UInt8} (other : c ≠ b) (rest : List UInt8) : expect b (c :: rest) = none := by
  simp [expect, other]

theorem skipBlanks_cons {b : UInt8} (solid : jsonBlank b = false) (rest : List UInt8) : skipBlanks (b :: rest) = b :: rest :=
  List.dropWhile_cons_of_neg (by simp [solid])

theorem readValue_string {content value : List UInt8} (denotes : StringContent content value) (fuel : Nat)
    (rest : List UInt8) :
    readValue (fuel + 1) (quote :: content ++ quote :: rest) = some (.string value, rest) := by
  rw [List.cons_append, readValue, skipBlanks_cons rfl, expect_cons]
  simp only [readString_content denotes, Option.map_some]

theorem readValue_object {more rest : List UInt8} {members : List (List UInt8 × Json)} {fuel : Nat}
    (reads : readMembers fuel (quote :: more) = some (members, rest)) :
    readValue (fuel + 1) (123 :: quote :: more) = some (.object members, rest) := by
  have unclosed : expect 125 (skipBlanks (quote :: more)) = none := by
    rw [skipBlanks_cons rfl, expect_other (by decide)]
  rw [readValue, skipBlanks_cons rfl, expect_other (by decide), expect_cons]
  simp only [unclosed, reads, Option.map_some]

theorem readValue_array {more rest : List UInt8} {items : List Json} {fuel : Nat}
    (reads : readItems fuel (123 :: more) = some (items, rest)) :
    readValue (fuel + 1) (91 :: 123 :: more) = some (.array items, rest) := by
  have unclosed : expect 93 (skipBlanks (123 :: more)) = none := by
    rw [skipBlanks_cons rfl, expect_other (by decide)]
  rw [readValue, skipBlanks_cons rfl, expect_other (by decide), expect_other (by decide), expect_cons]
  simp only [unclosed, reads, Option.map_some]

theorem readItems_last {written rest : List UInt8} {item : Json} {fuel : Nat}
    (reads : readValue fuel written = some (item, 93 :: rest)) :
    readItems (fuel + 1) written = some ([item], rest) := by
  have last : expect 44 (skipBlanks (93 :: rest)) = none := by
    rw [skipBlanks_cons rfl, expect_other (by decide)]
  have closed : expect 93 (skipBlanks (93 :: rest)) = some rest := by rw [skipBlanks_cons rfl, expect_cons]
  rw [readItems, reads, Option.bind_some]
  simp only [last, closed, Option.map_some]

theorem readJson_of {s : List UInt8} {value : Json} {n : Nat} (long : n ≤ s.length)
    (reads : ∀ fuel, readValue (fuel + n) s = some (value, [])) : readJson s = some value := by
  have fuel : s.length + 1 = s.length + 1 - n + n := by omega
  rw [readJson, fuel, reads]
  rfl

/-- One member of an object, and then the next ones or the end. -/
theorem readMembers_member {content key written rest : List UInt8} {value : Json} {fuel : Nat}
    (denotes : StringContent content key) (reads : readValue fuel written = some (value, rest)) :
    readMembers (fuel + 1) (quote :: content ++ quote :: 58 :: written) =
      match expect 44 (skipBlanks rest) with
      | some rest => (readMembers fuel rest).map fun (members, rest) => ((key, value) :: members, rest)
      | none => (expect 125 (skipBlanks rest)).map fun rest => ([(key, value)], rest) := by
  rw [List.cons_append, readMembers, skipBlanks_cons rfl, expect_cons]
  simp only [readString_content denotes, Option.bind_some, skipBlanks_cons (b := 58) rfl, expect_cons, reads]

theorem readMembers_more {content key written rest : List UInt8} {value : Json} {fuel : Nat}
    (denotes : StringContent content key) (reads : readValue fuel written = some (value, 44 :: rest)) :
    readMembers (fuel + 1) (quote :: content ++ quote :: 58 :: written) =
      (readMembers fuel rest).map fun (members, rest) => ((key, value) :: members, rest) := by
  rw [readMembers_member denotes reads, skipBlanks_cons rfl, expect_cons]

theorem readMembers_last {content key written rest : List UInt8} {value : Json} {fuel : Nat}
    (denotes : StringContent content key) (reads : readValue fuel written = some (value, 125 :: rest)) :
    readMembers (fuel + 1) (quote :: content ++ quote :: 58 :: written) = some ([(key, value)], rest) := by
  rw [readMembers_member denotes reads, skipBlanks_cons rfl, expect_other (by decide), expect_cons]
  rfl

end Budyk.Lib
