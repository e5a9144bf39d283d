import Mathlib.Data.List.DropRight
import Mathlib.Data.Nat.Digits.Lemmas

/-! The text functions of the C library, on byte strings: a number printed and scanned, and a file read by
`fgets` into a buffer of a fixed size. -/

namespace Budyk.Lib

def text (s : String) : List UInt8 := s.toUTF8.data.toList

instance lawfulBytes : LawfulBEq (List UInt8) := List.instLawfulBEq

abbrev tab : UInt8 := 9
abbrev newline : UInt8 := 10
abbrev carriageReturn : UInt8 := 13

/-- The bytes as a C string: up to the first NUL. -/
def cString (bytes : List UInt8) : List UInt8 := bytes.takeWhile (· ≠ 0)

def stripEnd (line : List UInt8) : List UInt8 := line.rdropWhile fun b => b = newline || b = carriageReturn

theorem stripEnd_eq {name : List UInt8} (oneLine : newline ∉ name) (ending : name.getLast? ≠ some carriageReturn) :
    stripEnd name = name := by
  rw [stripEnd, List.rdropWhile_eq_self_iff]
  intro nonempty stripped
  have last := List.getLast_mem nonempty
  simp only [Bool.or_eq_true, decide_eq_true_eq] at stripped
  rcases stripped with same | same
  · exact oneLine (same ▸ last)
  · exact ending (by rw [List.getLast?_eq_some_getLast nonempty, same])

theorem stripEnd_newline (name : List UInt8) : stripEnd (name ++ [newline]) = stripEnd name :=
  List.rdropWhile_concat_pos _ _ _ rfl

/-! Numbers. -/

def isDigit (b : UInt8) : Bool := 48 ≤ b && b ≤ 57

def isSpace (b : UInt8) : Bool := b = 32 || (9 ≤ b && b ≤ 13)

def digit (d : Nat) : UInt8 := UInt8.ofNat (48 + d)

def decimal (n : Nat) : List UInt8 := if n = 0 then [48] else (Nat.digits 10 n).reverse.map digit

/-- `%d` -/
def decimalInt (i : Int) : List UInt8 := if i < 0 then 45 :: decimal i.natAbs else decimal i.natAbs

def digitsValue (digits : List UInt8) : Nat := digits.foldl (fun value b => 10 * value + (b.toNat - 48)) 0

def scanSign : List UInt8 → Bool × List UInt8
  | 45 :: s => (true, s)
  | 43 :: s => (false, s)
  | s => (false, s)

/-- What `strtol` reads: blanks, a sign, and at least one digit; with the text after it. -/
def scanNumber (s : List UInt8) : Option (Bool × Nat × List UInt8) :=
  let signed := scanSign (s.dropWhile isSpace)
  if signed.2.takeWhile isDigit = [] then none
  else some (signed.1, digitsValue (signed.2.takeWhile isDigit), signed.2.dropWhile isDigit)

/-- `strtol` with a 64-bit `long`; none when nothing could be converted. -/
def strtol (s : List UInt8) : Option (Int × List UInt8) :=
  (scanNumber s).map fun (negative, n, rest) => (if negative then max (-n) (-2 ^ 63) else min n (2 ^ 63 - 1), rest)

def strtoull (s : List UInt8) : Option (UInt64 × List UInt8) :=
  (scanNumber s).map fun (negative, n, rest) =>
    (if 2 ^ 64 ≤ n then UInt64.ofNat (2 ^ 64 - 1) else if negative then -UInt64.ofNat n else UInt64.ofNat n, rest)

theorem decimalInt_ofNat (n : Nat) : decimalInt n = decimal n := by
  rw [decimalInt, if_neg (by omega), Int.natAbs_natCast]

theorem isDigit_digit : ∀ d < 10, isDigit (digit d) = true ∧ (digit d).toNat - 48 = d := by decide

theorem decimal_digits (n : Nat) : ∀ b ∈ decimal n, ∃ d < 10, b = digit d := by
  intro b held
  unfold decimal at held
  split at held
  · exact ⟨0, by decide, List.mem_singleton.mp held⟩
  · obtain ⟨d, digits, rfl⟩ := List.mem_map.mp held
    exact ⟨d, Nat.digits_lt_base (by decide) (List.mem_reverse.mp digits), rfl⟩

theorem decimal_ne_nil (n : Nat) : decimal n ≠ [] := by
  unfold decimal
  split
  · exact List.cons_ne_nil _ _
  next nonzero => simpa using Nat.digits_ne_nil_iff_ne_zero.mpr nonzero

theorem digitsValue_concat (digits : List UInt8) (b : UInt8) :
    digitsValue (digits ++ [b]) = 10 * digitsValue digits + (b.toNat - 48) := by
  simp [digitsValue]

theorem digitsValue_map_digit (digits : List Nat) (small : ∀ d ∈ digits, d < 10) :
    digitsValue (digits.reverse.map digit) = Nat.ofDigits 10 digits := by
  induction digits with
  | nil => rfl
  | cons d rest ih =>
      have value := (isDigit_digit d (small d (by simp))).2
      rw [List.reverse_cons, List.map_append, List.map_singleton, digitsValue_concat, value, Nat.ofDigits_cons,
        ih fun e held => small e (List.mem_cons_of_mem _ held)]
      omega

theorem digitsValue_decimal (n : Nat) : digitsValue (decimal n) = n := by
  unfold decimal
  split
  next zero => rw [zero]; rfl
  next => rw [digitsValue_map_digit _ fun d => Nat.digits_lt_base (by decide), Nat.ofDigits_digits]

theorem decimal_length_mono {m n : Nat} (le : m ≤ n) : (decimal m).length ≤ (decimal n).length := by
  unfold decimal
  split
  next => exact List.length_pos_iff.mpr (decimal_ne_nil n)
  next nonzero =>
    rw [if_neg (show n ≠ 0 by omega)]
    simpa using Nat.le_length_digits_le 10 m n le

theorem isDigit_plain (b : UInt8) (digit : isDigit b = true) : isSpace b = false ∧ b ≠ 45 ∧ b ≠ 43 := by
  simp only [isDigit, Bool.and_eq_true, decide_eq_true_eq, UInt8.le_iff_toNat_le] at digit
  simp only [isSpace, Bool.or_eq_false_iff, Bool.and_eq_false_iff, decide_eq_false_iff_not, UInt8.le_iff_toNat_le, ne_eq,
    ← UInt8.toNat_inj]
  simp only [UInt8.reduceToNat] at digit ⊢
  omega

theorem decimal_isDigit (n : Nat) : ∀ b ∈ decimal n, isDigit b = true := by
  intro b held
  obtain ⟨d, small, rfl⟩ := decimal_digits n b held
  exact (isDigit_digit d small).1

theorem scanNumber_digits {digits rest : List UInt8} (present : digits ≠ []) (all : ∀ b ∈ digits, isDigit b = true)
    (stops : ∀ b ∈ rest.head?, isDigit b = false) :
    scanNumber (digits ++ rest) = some (false, digitsValue digits, rest) := by
  obtain ⟨first, others, rfl⟩ := List.exists_cons_of_ne_nil present
  obtain ⟨blank, minus, plus⟩ := isDigit_plain first (all first List.mem_cons_self)
  have none : rest.takeWhile isDigit = [] ∧ rest.dropWhile isDigit = rest := by
    cases rest with
    | nil => exact ⟨rfl, rfl⟩
    | cons b rest =>
        have stop := stops b rfl
        simp [stop]
  have skipped : (first :: others ++ rest).dropWhile isSpace = first :: others ++ rest :=
    List.dropWhile_cons_of_neg (by simp [blank])
  have unsigned : ∀ s, scanSign (first :: s) = (false, first :: s) := by
    intro s
    unfold scanSign
    split
    next same => exact absurd (List.cons.inj same).1 minus
    next same => exact absurd (List.cons.inj same).1 plus
    next => rfl
  have within : (first :: others ++ rest).takeWhile isDigit = first :: others := by
    rw [List.takeWhile_append_of_pos all, none.1, List.append_nil]
  have after : (first :: others ++ rest).dropWhile isDigit = rest := by
    rw [List.dropWhile_append_of_pos all, none.2]
  unfold scanNumber
  rw [skipped]
  rw [List.cons_append] at within after ⊢
  simp only [unsigned, within, after]
  exact if_neg (List.cons_ne_nil _ _)

theorem scanNumber_decimal (n : Nat) {rest : List UInt8} (stops : ∀ b ∈ rest.head?, isDigit b = false) :
    scanNumber (decimal n ++ rest) = some (false, n, rest) := by
  rw [scanNumber_digits (decimal_ne_nil n) (decimal_isDigit n) stops, digitsValue_decimal]

theorem digitsValue_append_le (first second : List UInt8) : digitsValue first ≤ digitsValue (first ++ second) := by
  induction second using List.reverseRecOn with
  | nil => rw [List.append_nil]
  | append_singleton second b ih =>
      rw [← List.append_assoc, digitsValue_concat]
      omega

theorem scanSign_length (s : List UInt8) : (scanSign s).2.length ≤ s.length := by
  unfold scanSign
  split
  · exact Nat.le_succ _
  · exact Nat.le_succ _
  · exact Nat.le_refl _

theorem scanNumber_length {p rest : List UInt8} {negative : Bool} {n : Nat}
    (read : scanNumber p = some (negative, n, rest)) : rest.length ≤ p.length := by
  unfold scanNumber at read
  dsimp only at read
  split at read
  · cases read
  · cases read
    calc
      _ ≤ (scanSign (p.dropWhile isSpace)).2.length := (List.dropWhile_suffix isDigit).length_le
      _ ≤ (p.dropWhile isSpace).length := scanSign_length _
      _ ≤ p.length := (List.dropWhile_suffix isSpace).length_le

theorem strtol_length {p rest : List UInt8} {value : Int} (read : strtol p = some (value, rest)) :
    rest.length ≤ p.length := by
  obtain ⟨⟨negative, n, after⟩, scanned, same⟩ := Option.map_eq_some_iff.mp read
  cases same
  exact scanNumber_length scanned

theorem strtoull_length {p rest : List UInt8} {value : UInt64} (read : strtoull p = some (value, rest)) :
    rest.length ≤ p.length := by
  obtain ⟨⟨negative, n, after⟩, scanned, same⟩ := Option.map_eq_some_iff.mp read
  cases same
  exact scanNumber_length scanned

theorem strtol_decimal (n : Nat) {rest : List UInt8} (small : n < 2 ^ 63) (stops : ∀ b ∈ rest.head?, isDigit b = false) :
    strtol (decimal n ++ rest) = some ((n : Int), rest) := by
  rw [strtol, scanNumber_decimal n stops]
  simp only [Option.map_some, Bool.false_eq_true, if_false]
  rw [min_eq_left (by omega)]

theorem strtoull_decimal (n : UInt64) {rest : List UInt8} (stops : ∀ b ∈ rest.head?, isDigit b = false) :
    strtoull (decimal n.toNat ++ rest) = some (n, rest) := by
  rw [strtoull, scanNumber_decimal _ stops]
  simp only [Option.map_some, Bool.false_eq_true, if_false]
  rw [if_neg (by have := n.toNat_lt; omega), UInt64.ofNat_toNat]

/-! Lines. -/

/-- What repeated calls of `fgets` with room for `limit` bytes give, the buffer holding `line` so far. -/
def fgetsFrom (limit : Nat) : List UInt8 → List UInt8 → List (List UInt8)
  | line, [] => if line = [] then [] else [line]
  | line, b :: rest =>
      if b = newline ∨ line.length + 1 = limit then (line ++ [b]) :: fgetsFrom limit [] rest
      else fgetsFrom limit (line ++ [b]) rest

/-- The lines of a file read into a buffer of `size` bytes, one of which is for the NUL. -/
def fgetsLines (size : Nat) (file : List UInt8) : List (List UInt8) := fgetsFrom (size - 1) [] file

section Lines
variable {limit : Nat}

theorem fgetsFrom_newline (line start rest : List UInt8) :
    fgetsFrom limit start (line ++ newline :: rest) =
      fgetsFrom limit start (line ++ [newline]) ++ fgetsFrom limit [] rest := by
  induction line generalizing start with
  | nil => simp [fgetsFrom]
  | cons b line ih =>
      simp only [List.cons_append, fgetsFrom]
      split
      · rw [ih, List.cons_append]
      · exact ih _

theorem fgetsFrom_within {line : List UInt8} (start rest : List UInt8) (oneLine : newline ∉ line)
    (room : start.length + line.length < limit) :
    fgetsFrom limit start (line ++ rest) = fgetsFrom limit (start ++ line) rest := by
  induction line generalizing start with
  | nil => simp
  | cons b line ih =>
      rw [List.length_cons] at room
      have within : ¬(b = newline ∨ start.length + 1 = limit) := by
        rintro (rfl | full)
        · exact oneLine List.mem_cons_self
        · omega
      rw [List.cons_append, fgetsFrom, if_neg within,
        ih (start ++ [b]) (fun held => oneLine (List.mem_cons_of_mem _ held)) (by simp; omega), List.append_assoc]
      rfl

/-- A buffer that fills up is handed out, and the rest of the line read as if it were one of its own. -/
theorem fgetsFrom_full {line : List UInt8} (rest : List UInt8) (oneLine : newline ∉ line) (positive : 0 < limit)
    (long : limit ≤ line.length) :
    fgetsFrom limit [] (line ++ rest) = line.take limit :: fgetsFrom limit [] (line.drop limit ++ rest) := by
  obtain ⟨room, rfl⟩ : ∃ room, limit = room + 1 := ⟨limit - 1, by omega⟩
  have parts : line = line.take room ++ line.drop room := (List.take_append_drop room line).symm
  obtain ⟨b, drop⟩ : ∃ b, line.drop room = b :: line.drop (room + 1) := ⟨_, List.drop_eq_getElem_cons (by omega)⟩
  have whole : line.take (room + 1) = line.take room ++ [b] := by
    rw [List.take_add, drop]
    rfl
  rw [whole]
  conv_lhs => rw [parts, List.append_assoc]
  rw [fgetsFrom_within [] _ (fun held => oneLine (List.mem_of_mem_take held))
    (by rw [List.length_nil, List.length_take]; omega), drop, List.nil_append, List.cons_append, fgetsFrom,
    if_pos (.inr (by rw [List.length_take]; omega))]

theorem fgetsFrom_short {line : List UInt8} (oneLine : newline ∉ line) (fits : line.length < limit) :
    fgetsFrom limit [] (line ++ [newline]) = [line ++ [newline]] := by
  rw [fgetsFrom_within [] _ oneLine (by simpa using fits), List.nil_append, fgetsFrom, if_pos (.inl rfl)]
  rfl

theorem fgetsFrom_exact {line : List UInt8} (oneLine : newline ∉ line) (positive : 0 < limit)
    (fits : line.length = limit) : fgetsFrom limit [] (line ++ [newline]) = [line, [newline]] := by
  rw [fgetsFrom_full _ oneLine positive fits.ge, List.take_of_length_le fits.le, List.drop_of_length_le fits.le,
    List.nil_append, fgetsFrom, if_pos (.inl rfl)]
  rfl

theorem fgetsFrom_mem (file start : List UInt8) :
    ∀ line ∈ fgetsFrom limit start file, ∀ b ∈ line, b ∈ start ∨ b ∈ file := by
  induction file generalizing start with
  | nil =>
      intro line held b among
      rw [fgetsFrom] at held
      split at held
      · cases held
      · exact .inl (List.mem_singleton.mp held ▸ among)
  | cons c rest ih =>
      intro line held b among
      rw [fgetsFrom] at held
      split at held
      · rcases List.mem_cons.mp held with rfl | later
        · simp only [List.mem_append, List.mem_singleton] at among
          rw [List.mem_cons]
          tauto
        · have inside := ih [] line later b among
          rw [List.mem_cons]
          simp only [List.not_mem_nil, false_or] at inside
          exact .inr (.inr inside)
      · have inside := ih (start ++ [c]) line held b among
        simp only [List.mem_append, List.mem_singleton] at inside
        rw [List.mem_cons]
        tauto

theorem fgetsFrom_length (file start : List UInt8) :
    ∀ line ∈ fgetsFrom limit start file, line.length ≤ start.length + file.length := by
  induction file generalizing start with
  | nil =>
      intro line held
      rw [fgetsFrom] at held
      split at held
      · cases held
      · simp [List.mem_singleton.mp held]
  | cons b rest ih =>
      intro line held
      rw [fgetsFrom] at held
      rw [List.length_cons]
      split at held
      · rcases List.mem_cons.mp held with rfl | later
        · rw [List.length_append, List.length_singleton]
          omega
        · have short := ih [] line later
          rw [List.length_nil] at short
          omega
      · have short := ih (start ++ [b]) line held
        rw [List.length_append, List.length_singleton] at short
        omega

end Lines

end Budyk.Lib
