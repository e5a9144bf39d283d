import Mathlib.Algebra.Order.Floor.Ring
import Mathlib.Data.Int.Log
import Mathlib.Data.Rat.Floor
import Mathlib.Tactic.FieldSimp
import Mathlib.Tactic.Linarith
import Mathlib.Tactic.Positivity
import Budyk.Lib.Text

/-! Decimal numerals: what `printf` makes of a number by `%.0f` and by `%g`, and what `strtod` reads. -/

namespace Budyk.Lib

/-! ## Numerals -/

/-- The value of the digits after the point. -/
def fractionValue (digits : List Nat) : ℚ := digits.foldr (fun d rest => (d + rest) / 10) 0

structure Numeral where
  negative : Bool
  whole : Nat
  fraction : List Nat
  exponent : Option Int
  digits : ∀ d ∈ fraction, d < 10
  noTrailingZero : fraction.getLast? ≠ some 0
  normal : ∀ x, exponent = some x → x ≠ 0 ∧ 1 ≤ whole ∧ whole ≤ 9

theorem digits_isDigit {digits : List Nat} (small : ∀ d ∈ digits, d < 10) : ∀ b ∈ digits.map digit, isDigit b = true := by
  intro b held
  obtain ⟨d, inside, rfl⟩ := List.mem_map.mp held
  exact (isDigit_digit d (small d inside)).1

namespace Numeral

def signed (n : Numeral) (x : ℚ) : ℚ := if n.negative then -x else x

def value (n : Numeral) : ℚ := n.signed ((n.whole + fractionValue n.fraction) * 10 ^ n.exponent.getD 0)

/-- The value up to the point. -/
def cut (n : Numeral) : ℚ := n.signed n.whole

/-- At least two digits. -/
def exponentText : Option Int → List UInt8
  | none => []
  | some x => 101 :: (if x < 0 then 45 else 43) :: ((if x.natAbs < 10 then [48] else []) ++ decimal x.natAbs)

/-- What follows the digits before the point. -/
def tail (n : Numeral) : List UInt8 :=
  (if n.fraction = [] then [] else 46 :: n.fraction.map digit) ++ exponentText n.exponent

def text (n : Numeral) : List UInt8 := (if n.negative then [45] else []) ++ decimal n.whole ++ n.tail

def ofNat (n : Nat) : Numeral where
  negative := false
  whole := n
  fraction := []
  exponent := none
  digits := by simp
  noTrailingZero := by simp
  normal := by simp

def ofInt (i : Int) : Numeral := { ofNat i.natAbs with negative := i < 0 }

theorem text_ofNat (n : Nat) : (ofNat n).text = decimal n := by simp [text, ofNat, tail, exponentText]

theorem text_bytes (n : Numeral) : ∀ b ∈ n.text, isDigit b = true ∨ b ∈ [43, 45, 46, 101] := by
  have exponent : ∀ b ∈ exponentText n.exponent, isDigit b = true ∨ b ∈ [43, 45, 46, 101] := by
    intro b held
    cases form : n.exponent with
    | none =>
        rw [form] at held
        cases held
    | some x =>
        rw [form] at held
        simp only [exponentText, List.mem_cons, List.mem_append] at held
        rcases held with rfl | rfl | zero | digit
        · decide
        · split <;> decide
        · split at zero
          · rw [List.mem_singleton.mp zero]
            decide
          · cases zero
        · exact .inl (decimal_isDigit _ b digit)
  intro b held
  simp only [text, tail, List.mem_append] at held
  rcases held with (sign | whole) | fraction | last
  · split at sign
    · rw [List.mem_singleton.mp sign]
      decide
    · cases sign
  · exact .inl (decimal_isDigit _ b whole)
  · split at fraction
    · cases fraction
    · rcases List.mem_cons.mp fraction with rfl | digit
      · decide
      · exact .inl (digits_isDigit n.digits b digit)
  · exact exponent b last

theorem text_head (n : Numeral) : ∃ b more, n.text = b :: more ∧ (isDigit b = true ∨ b = 45) := by
  obtain ⟨first, others, digits⟩ := List.exists_cons_of_ne_nil (decimal_ne_nil n.whole)
  cases sign : n.negative with
  | true => exact ⟨45, _, by rw [text, sign]; rfl, .inr rfl⟩
  | false =>
      refine ⟨first, others ++ n.tail, by rw [text, sign, digits]; rfl, .inl ?_⟩
      exact decimal_isDigit n.whole first (digits ▸ List.mem_cons_self)

theorem value_ofNat (n : Nat) : (ofNat n).value = n := by simp [value, ofNat, signed, fractionValue]

theorem value_ofInt (i : Int) : (ofInt i).value = i := by
  by_cases negative : i < 0
  · have back : ((i.natAbs : Int) : ℚ) = ((-i : Int) : ℚ) := by rw [Int.ofNat_natAbs_of_nonpos negative.le]
    rw [Int.cast_natCast, Int.cast_neg] at back
    simp [value, ofInt, ofNat, signed, fractionValue, negative, back]
  · have back : ((i.natAbs : Int) : ℚ) = (i : ℚ) := by rw [Int.natAbs_of_nonneg (not_lt.mp negative)]
    rw [Int.cast_natCast] at back
    simp [value, ofInt, ofNat, signed, fractionValue, negative, back]

end Numeral

theorem fractionValue_nonneg (digits : List Nat) : 0 ≤ fractionValue digits := by
  induction digits with
  | nil => exact le_rfl
  | cons d digits ih =>
      have next : fractionValue (d :: digits) = (d + fractionValue digits) / 10 := rfl
      rw [next]
      exact div_nonneg (add_nonneg (Nat.cast_nonneg d) ih) (by norm_num)

theorem fractionValue_lt_one {digits : List Nat} (small : ∀ d ∈ digits, d < 10) : fractionValue digits < 1 := by
  induction digits with
  | nil => exact one_pos
  | cons d digits ih =>
      have next : fractionValue (d :: digits) = (d + fractionValue digits) / 10 := rfl
      have first : (d : ℚ) ≤ 9 := by exact_mod_cast Nat.le_of_lt_succ (small d List.mem_cons_self)
      have rest := ih fun e held => small e (List.mem_cons_of_mem _ held)
      rw [next]
      linarith

theorem fractionValue_pos {digits : List Nat} {d : Nat} (held : d ∈ digits) (positive : d ≠ 0) :
    0 < fractionValue digits := by
  induction digits with
  | nil => cases held
  | cons e digits ih =>
      have next : fractionValue (e :: digits) = (e + fractionValue digits) / 10 := rfl
      have rest := fractionValue_nonneg digits
      rw [next]
      rcases List.mem_cons.mp held with rfl | later
      · have first : (0 : ℚ) < d := by exact_mod_cast Nat.pos_of_ne_zero positive
        linarith
      · have first : (0 : ℚ) ≤ e := Nat.cast_nonneg e
        have more := ih later
        linarith

/-- A numeral with digits after its point is not what stands before it. -/
theorem Numeral.cut_ne_value (n : Numeral) (present : n.fraction ≠ []) : n.cut ≠ n.value := by
  obtain ⟨d, last⟩ := Option.ne_none_iff_exists'.mp (List.getLast?_eq_none_iff.not.mpr present)
  have nonzero : d ≠ 0 := by
    rintro rfl
    exact n.noTrailingZero last
  have positive := fractionValue_pos (List.mem_of_getLast? last) nonzero
  have below := fractionValue_lt_one n.digits
  suffices apart : (n.whole : ℚ) ≠ (n.whole + fractionValue n.fraction) * 10 ^ n.exponent.getD 0 by
    unfold Numeral.cut Numeral.value Numeral.signed
    split
    · exact fun same => apart (neg_injective same)
    · exact apart
  cases form : n.exponent with
  | none =>
      rw [Option.getD_none, zpow_zero, mul_one]
      linarith
  | some x =>
      obtain ⟨nonzero, least, most⟩ := n.normal x form
      have least : (1 : ℚ) ≤ n.whole := by exact_mod_cast least
      have most : (n.whole : ℚ) ≤ 9 := by exact_mod_cast most
      rw [Option.getD_some]
      rcases Int.lt_or_gt_of_ne nonzero with small | large
      · have tenth : (10 : ℚ) ^ x ≤ 10 ^ (-1 : Int) := zpow_le_zpow_right₀ (by norm_num) (by omega)
        rw [zpow_neg_one] at tenth
        have product := mul_le_mul_of_nonneg_left tenth (show 0 ≤ n.whole + fractionValue n.fraction by linarith)
        linarith
      · have tenfold : (10 : ℚ) ^ (1 : Int) ≤ 10 ^ x := zpow_le_zpow_right₀ (by norm_num) (by omega)
        rw [zpow_one] at tenfold
        have product := mul_le_mul_of_nonneg_left tenfold (show 0 ≤ n.whole + fractionValue n.fraction by linarith)
        linarith

/-! ## Printing -/

/-- Ties to even. -/
def roundEven (q : ℚ) : Int :=
  let rest := q - ⌊q⌋
  if rest < 1 / 2 then ⌊q⌋
  else if 1 / 2 < rest then ⌊q⌋ + 1
  else if ⌊q⌋ % 2 = 0 then ⌊q⌋
  else ⌊q⌋ + 1

theorem roundEven_bounds {q : ℚ} {low high : Int} (above : low ≤ q) (below : q ≤ high) :
    low ≤ roundEven q ∧ roundEven q ≤ high := by
  have least : low ≤ ⌊q⌋ := Int.le_floor.mpr above
  have under := Int.floor_le q
  rcases eq_or_lt_of_le (show ⌊q⌋ ≤ high by exact_mod_cast under.trans below) with top | less
  · have whole : q - ⌊q⌋ = 0 := by
      rw [top] at under ⊢
      linarith
    have down : roundEven q = ⌊q⌋ := by
      unfold roundEven
      rw [whole]
      norm_num
    rw [down]
    exact ⟨least, top.le⟩
  · unfold roundEven
    dsimp only
    split
    · exact ⟨least, less.le⟩
    · split
      · exact ⟨by omega, by omega⟩
      · split
        · exact ⟨least, less.le⟩
        · exact ⟨by omega, by omega⟩

/-- The digits of a positive number rounded to `precision` of them, and the power of ten of the first. -/
def scientific (precision : Nat) (q : ℚ) : Nat × Int :=
  let x := Int.log 10 q
  let n := (roundEven (q * 10 ^ ((precision : Int) - 1 - x))).toNat
  if n = 10 ^ precision then (10 ^ (precision - 1), x + 1) else (n, x)

theorem scientific_bounds {precision : Nat} {q : ℚ} (digits : 0 < precision) (positive : 0 < q) :
    10 ^ (precision - 1) ≤ (scientific precision q).1 ∧ (scientific precision q).1 < 10 ^ precision := by
  have low : (10 : ℚ) ^ Int.log 10 q ≤ q := by exact_mod_cast Int.zpow_log_le_self (by decide) positive
  have high : q < (10 : ℚ) ^ (Int.log 10 q + 1) := by exact_mod_cast Int.lt_zpow_succ_log_self (by decide) q
  unfold scientific
  generalize Int.log 10 q = x at low high
  dsimp only
  have scale : (0 : ℚ) < 10 ^ ((precision : Int) - 1 - x) := zpow_pos (by norm_num) _
  have least : (((10 ^ (precision - 1) : Nat) : Int) : ℚ) ≤ q * 10 ^ ((precision : Int) - 1 - x) := by
    calc
      (((10 ^ (precision - 1) : Nat) : Int) : ℚ) = 10 ^ x * 10 ^ ((precision : Int) - 1 - x) := by
        rw [← zpow_add₀ (by norm_num), Int.cast_natCast, Nat.cast_pow, ← zpow_natCast]
        congr 1
        omega
      _ ≤ _ := mul_le_mul_of_nonneg_right low scale.le
  have most : q * 10 ^ ((precision : Int) - 1 - x) ≤ (((10 ^ precision : Nat) : Int) : ℚ) := by
    calc
      _ ≤ 10 ^ (x + 1) * 10 ^ ((precision : Int) - 1 - x) := mul_le_mul_of_nonneg_right high.le scale.le
      _ = _ := by
        rw [← zpow_add₀ (by norm_num), Int.cast_natCast, Nat.cast_pow, ← zpow_natCast]
        congr 1
        omega
  obtain ⟨above, below⟩ := roundEven_bounds least most
  have grown : 10 ^ (precision - 1) < 10 ^ precision := Nat.pow_lt_pow_right (by decide) (by omega)
  split
  · exact ⟨Nat.le_refl _, grown⟩
  next other =>
    have least := Int.toNat_le_toNat above
    have most := Int.toNat_le_toNat below
    rw [Int.toNat_natCast] at least most
    exact ⟨least, lt_of_le_of_ne most other⟩

def placeDigits (places n : Nat) : List Nat := (List.range places).map fun i => n / 10 ^ (places - 1 - i) % 10

/-- Without the zeros at the end. -/
def fractionDigits (places n : Nat) : List Nat := (placeDigits places n).rdropWhile (· = 0)

theorem fractionDigits_lt {places n : Nat} : ∀ d ∈ fractionDigits places n, d < 10 := by
  intro d held
  obtain ⟨i, -, rfl⟩ := List.mem_map.mp ((List.rdropWhile_prefix (· = 0) _).subset held)
  exact Nat.mod_lt _ (by decide)

theorem fractionDigits_last (places n : Nat) : (fractionDigits places n).getLast? ≠ some 0 := by
  intro zero
  have present : fractionDigits places n ≠ [] := by
    intro none
    rw [none] at zero
    cases zero
  have stays := List.rdropWhile_last_not (fun d : Nat => decide (d = 0)) (placeDigits places n) present
  rw [List.getLast?_eq_some_getLast present, Option.some.injEq] at zero
  exact stays (decide_eq_true zero)

/-- `%.0f` of a whole number. -/
def wholeNumeral (negative : Bool) (q : ℚ) : Numeral := { Numeral.ofNat ⌊q⌋.toNat with negative }

/-- `%.*g` -/
def generalNumeral (precision : Nat) (negative : Bool) (q : ℚ) : Numeral :=
  if positive : 0 < q ∧ 0 < precision then
    let n := (scientific precision q).1
    let x := (scientific precision q).2
    if fixed : -4 ≤ x ∧ x < precision then
      let places := (precision - 1 - x).toNat
      { negative, whole := n / 10 ^ places, fraction := fractionDigits places (n % 10 ^ places), exponent := none,
        digits := fractionDigits_lt, noTrailingZero := fractionDigits_last _ _, normal := by simp }
    else
      let places := precision - 1
      { negative, whole := n / 10 ^ places, fraction := fractionDigits places (n % 10 ^ places), exponent := some x,
        digits := fractionDigits_lt, noTrailingZero := fractionDigits_last _ _
        normal := by
          intro y same
          obtain rfl : x = y := Option.some.inj same
          obtain ⟨least, most⟩ := scientific_bounds positive.2 positive.1
          have step : (10 : Nat) ^ precision = 10 * 10 ^ places := by
            rw [← Nat.pow_succ']
            congr 1
            omega
          rw [step] at most
          have unit : 0 < 10 ^ places := by positivity
          refine ⟨fun zero => fixed ⟨by omega, by omega⟩, (Nat.one_le_div_iff unit).mpr least, ?_⟩
          exact Nat.le_of_lt_succ ((Nat.div_lt_iff_lt_mul unit).mpr most) }
  else { Numeral.ofNat 0 with negative }

/-! ## Reading -/

/-- The decimal point of a locale: a full stop, a comma, or a character outside ASCII. -/
structure NumberLocale where
  point : List UInt8
  known : point = [46] ∨ point = [44] ∨ ∃ lead more, point = lead :: more ∧ 128 ≤ lead

/-- Hexadecimal numbers, infinities and NaNs. -/
def otherForm (s : List UInt8) : Bool :=
  (s.head? = some 48 && (s[1]? = some 120 || s[1]? = some 88)) ||
    (s.head? = some 73 || s.head? = some 105 || s.head? = some 78 || s.head? = some 110)

def scanFraction (point s : List UInt8) : List UInt8 × List UInt8 :=
  if point <+: s then ((s.drop point.length).takeWhile isDigit, (s.drop point.length).dropWhile isDigit) else ([], s)

def scanExponent : List UInt8 → Int × List UInt8
  | [] => (0, [])
  | e :: s =>
      let signed := scanSign s
      let digits := signed.2.takeWhile isDigit
      if (e = 101 ∨ e = 69) ∧ digits ≠ [] then
        (if signed.1 then -(digitsValue digits : Int) else digitsValue digits, signed.2.dropWhile isDigit)
      else (0, e :: s)

/-- The number `strtod` finds, to which the double it returns is the nearest, and the text after it; none when nothing
could be converted. What it makes of the other forms is `other`. -/
def strtod (locale : NumberLocale) (other : List UInt8 → Option (ℚ × List UInt8)) (s : List UInt8) :
    Option (ℚ × List UInt8) :=
  let signed := scanSign (s.dropWhile isSpace)
  if otherForm signed.2 then other s
  else
    let whole := signed.2.takeWhile isDigit
    let (fraction, rest) := scanFraction locale.point (signed.2.dropWhile isDigit)
    if whole = [] ∧ fraction = [] then none
    else
      let (exponent, rest) := scanExponent rest
      let value := (digitsValue whole + fractionValue (fraction.map fun b => b.toNat - 48)) * 10 ^ exponent
      some (if signed.1 then -value else value, rest)

theorem digits_split {digits rest : List UInt8} (all : ∀ b ∈ digits, isDigit b = true)
    (stops : ∀ b ∈ rest.head?, isDigit b = false) :
    (digits ++ rest).takeWhile isDigit = digits ∧ (digits ++ rest).dropWhile isDigit = rest := by
  have none : rest.takeWhile isDigit = [] ∧ rest.dropWhile isDigit = rest := by
    cases rest with
    | nil => exact ⟨rfl, rfl⟩
    | cons b rest =>
        have stop := stops b rfl
        simp [stop]
  rw [List.takeWhile_append_of_pos all, List.dropWhile_append_of_pos all, none.1, none.2, List.append_nil]
  exact ⟨rfl, rfl⟩

/-- What follows a number in a text made by the daemon: a comma and the next key, or the end of the object. -/
def AfterNumber (rest : List UInt8) : Prop := (∃ more, rest = 44 :: 34 :: more) ∨ ∃ more, rest = 125 :: more

theorem scanExponent_text (exponent : Option Int) {rest : List UInt8} (ends : AfterNumber rest ∨ ∃ more, rest = 34 :: more) :
    scanExponent (Numeral.exponentText exponent ++ rest) = (exponent.getD 0, rest) := by
  have stops : ∀ b ∈ rest.head?, isDigit b = false ∧ b ≠ 101 ∧ b ≠ 69 := by
    rcases ends with (⟨more, rfl⟩ | ⟨more, rfl⟩) | ⟨more, rfl⟩
    all_goals
      intro b head
      cases head
      decide
  cases exponent with
  | none =>
      cases rest with
      | nil => rfl
      | cons b rest =>
          obtain ⟨-, lower, upper⟩ := stops b rfl
          change scanExponent (b :: rest) = _
          unfold scanExponent
          simp [lower, upper]
  | some x =>
      set digits := (if x.natAbs < 10 then [48] else []) ++ decimal x.natAbs with digits_eq
      have all : ∀ b ∈ digits, isDigit b = true := by
        intro b held
        rcases List.mem_append.mp held with zero | digit
        · split at zero
          · rw [List.mem_singleton.mp zero]
            rfl
          · cases zero
        · exact decimal_isDigit _ b digit
      have value : digitsValue digits = x.natAbs := by
        rw [digits_eq]
        split
        · exact digitsValue_decimal _
        · exact digitsValue_decimal _
      have present : digits ≠ [] := by
        rw [digits_eq]
        exact List.append_ne_nil_of_right_ne_nil _ (decimal_ne_nil _)
      obtain ⟨within, after⟩ := digits_split all fun b head => (stops b head).1
      have text : Numeral.exponentText (some x) ++ rest = 101 :: (if x < 0 then 45 else 43) :: (digits ++ rest) := rfl
      rw [text, Option.getD_some]
      by_cases negative : x < 0
      · simp only [negative, if_true, scanExponent, scanSign, within, after, value, present, ne_eq, not_false_eq_true,
          and_true, true_or]
        congr 1
        omega
      · simp only [negative, if_false, scanExponent, scanSign, within, after, value, present, ne_eq, not_false_eq_true,
          and_true, true_or, if_true, Bool.false_eq_true]
        congr 1
        omega

section Strtod
variable {locale : NumberLocale} {other : List UInt8 → Option (ℚ × List UInt8)} {n : Numeral} {rest : List UInt8}

theorem tail_head (ends : AfterNumber rest) : ∀ b ∈ (n.tail ++ rest).head?, b ∈ [46, 101, 44, 125] := by
  intro b head
  unfold Numeral.tail at head
  by_cases point : n.fraction = []
  · rw [if_pos point, List.nil_append] at head
    cases form : n.exponent with
    | none =>
        rw [form] at head
        rcases ends with ⟨more, rfl⟩ | ⟨more, rfl⟩
        all_goals
          cases head
          decide
    | some x =>
        rw [form] at head
        cases head
        decide
  · rw [if_neg point] at head
    cases head
    decide

/-- A digit begins the number, and it is none of the other forms. -/
theorem scanSign_text (ends : AfterNumber rest) :
    scanSign ((n.text ++ rest).dropWhile isSpace) = (n.negative, decimal n.whole ++ (n.tail ++ rest)) ∧
      otherForm (decimal n.whole ++ (n.tail ++ rest)) = false := by
  obtain ⟨first, others, digits⟩ := List.exists_cons_of_ne_nil (decimal_ne_nil n.whole)
  have isDigits := decimal_isDigit n.whole
  rw [digits] at isDigits
  have firstDigit := isDigits first List.mem_cons_self
  obtain ⟨blank, minus, plus⟩ := isDigit_plain first firstDigit
  have unsigned (s : List UInt8) : scanSign (first :: s) = (false, first :: s) := by
    unfold scanSign
    split
    next same => exact absurd (List.cons.inj same).1 minus
    next same => exact absurd (List.cons.inj same).1 plus
    next => rfl
  have text : n.text ++ rest = (if n.negative then [45] else []) ++ (first :: others ++ (n.tail ++ rest)) := by
    rw [Numeral.text, digits, List.append_assoc, List.append_assoc]
  constructor
  · rw [text, digits]
    cases n.negative with
    | true => rfl
    | false =>
        rw [if_neg Bool.false_ne_true, List.nil_append, List.cons_append, List.dropWhile_cons_of_neg (by simp [blank])]
        exact unsigned _
  · have second : ∀ b ∈ (others ++ (n.tail ++ rest)).head?, b ≠ 120 ∧ b ≠ 88 := by
      intro b head
      cases others with
      | nil =>
          have among := tail_head ends b head
          simp only [List.mem_cons, List.not_mem_nil, or_false] at among
          rcases among with rfl | rfl | rfl | rfl <;> decide
      | cons c others =>
          cases head
          have digit := isDigits b (List.mem_cons_of_mem _ List.mem_cons_self)
          constructor
          · rintro rfl
            cases digit
          · rintro rfl
            cases digit
    have letter : first ≠ 73 ∧ first ≠ 105 ∧ first ≠ 78 ∧ first ≠ 110 := by
      refine ⟨?_, ?_, ?_, ?_⟩
      all_goals
        rintro rfl
        cases firstDigit
    have one : (first :: others ++ (n.tail ++ rest))[1]? = (others ++ (n.tail ++ rest)).head? := by
      rw [List.cons_append, List.getElem?_cons_succ, List.head?_eq_getElem?]
    rw [digits, otherForm, one]
    cases next : (others ++ (n.tail ++ rest)).head? with
    | none => simp [letter]
    | some b => simp [letter, second b next]

theorem scanFraction_other {point s : List UInt8} (other : ¬point <+: s) : scanFraction point s = ([], s) := if_neg other

theorem point_head {b : UInt8} {more : List UInt8} (inside : locale.point <+: b :: more) (ascii : b < 128) :
    locale.point = [46] ∧ b = 46 ∨ locale.point = [44] ∧ b = 44 := by
  rcases locale.known with stop | comma | ⟨lead, others, wide, high⟩
  · rw [stop] at inside
    exact .inl ⟨stop, (List.cons_prefix_cons.mp inside).1.symm⟩
  · rw [comma] at inside
    exact .inr ⟨comma, (List.cons_prefix_cons.mp inside).1.symm⟩
  · rw [wide] at inside
    obtain ⟨rfl, -⟩ := List.cons_prefix_cons.mp inside
    exact absurd ascii (UInt8.not_lt.mpr high)

/-- Read up to its fraction's end where the locale has a full stop or there is none; a comma that follows may go with
it. -/
theorem scanFraction_tail (ends : AfterNumber rest) (read : locale.point = [46] ∨ n.fraction = []) :
    ∃ after, scanFraction locale.point (n.tail ++ rest) =
        (n.fraction.map digit, Numeral.exponentText n.exponent ++ after) ∧
      (after = rest ∨ n.exponent = none ∧ rest = 44 :: after) := by
  by_cases point : n.fraction = []
  · have tail : n.tail ++ rest = Numeral.exponentText n.exponent ++ rest := by
      rw [Numeral.tail, if_pos point, List.nil_append]
    rw [tail, point]
    by_cases inside : locale.point <+: Numeral.exponentText n.exponent ++ rest
    · cases form : n.exponent with
      | some x =>
          rw [form] at inside
          obtain ⟨-, wrong⟩ | ⟨-, wrong⟩ := point_head inside (by decide)
          · cases wrong
          · cases wrong
      | none =>
          rw [form] at inside
          rcases ends with ⟨more, rfl⟩ | ⟨more, rfl⟩
          · obtain ⟨-, wrong⟩ | ⟨comma, -⟩ := point_head inside (by decide)
            · cases wrong
            · refine ⟨34 :: more, ?_, .inr ⟨rfl, rfl⟩⟩
              rw [comma] at inside ⊢
              rw [scanFraction, if_pos inside]
              rfl
          · obtain ⟨-, wrong⟩ | ⟨-, wrong⟩ := point_head inside (by decide)
            · cases wrong
            · cases wrong
    · exact ⟨rest, scanFraction_other inside, .inl rfl⟩
  · have stop := read.resolve_right point
    refine ⟨rest, ?_, .inl rfl⟩
    have tail : n.tail ++ rest = [46] ++ (n.fraction.map digit ++ (Numeral.exponentText n.exponent ++ rest)) := by
      rw [Numeral.tail, if_neg point, List.cons_append, List.cons_append, List.append_assoc]
      rfl
    have stops : ∀ b ∈ (Numeral.exponentText n.exponent ++ rest).head?, isDigit b = false := by
      intro b head
      cases form : n.exponent with
      | some x =>
          rw [form] at head
          cases head
          rfl
      | none =>
          rw [form] at head
          rcases ends with ⟨more, rfl⟩ | ⟨more, rfl⟩
          all_goals
            cases head
            rfl
    obtain ⟨within, after⟩ := digits_split (digits_isDigit n.digits) stops
    rw [stop, tail, scanFraction, if_pos (List.prefix_append _ _), List.drop_left, within, after]

theorem fraction_back {digits : List Nat} (small : ∀ d ∈ digits, d < 10) :
    (digits.map digit).map (fun b => b.toNat - 48) = digits := by
  rw [List.map_map]
  conv_rhs => rw [← List.map_id digits]
  apply List.map_congr_left
  intro d held
  exact (isDigit_digit d (small d held)).2

theorem whole_split (ends : AfterNumber rest) :
    (decimal n.whole ++ (n.tail ++ rest)).takeWhile isDigit = decimal n.whole ∧
      (decimal n.whole ++ (n.tail ++ rest)).dropWhile isDigit = n.tail ++ rest := by
  apply digits_split (decimal_isDigit n.whole)
  intro b head
  have among := tail_head ends b head
  simp only [List.mem_cons, List.not_mem_nil, or_false] at among
  rcases among with rfl | rfl | rfl | rfl <;> rfl

theorem strtod_text (ends : AfterNumber rest) (read : locale.point = [46] ∨ n.fraction = []) :
    ∃ after, strtod locale other (n.text ++ rest) = some (n.value, after) ∧ (after = rest ∨ rest = 44 :: after) := by
  obtain ⟨signed, written⟩ := scanSign_text (n := n) ends
  obtain ⟨within, later⟩ := whole_split (n := n) ends
  obtain ⟨after, fraction, same⟩ := @scanFraction_tail locale n rest ends read
  refine ⟨after, ?_, same.imp id And.right⟩
  have exponent : scanExponent (Numeral.exponentText n.exponent ++ after) = (n.exponent.getD 0, after) := by
    apply scanExponent_text
    rcases same with rfl | ⟨-, comma⟩
    · exact .inl ends
    · rcases ends with ⟨more, whole⟩ | ⟨more, whole⟩
      · rw [comma, List.cons.injEq] at whole
        exact .inr ⟨more, whole.2⟩
      · rw [comma] at whole
        cases whole
  unfold strtod
  simp only [signed, written, within, later, fraction, exponent, fraction_back n.digits, decimal_ne_nil, false_and,
    if_false, digitsValue_decimal, Bool.false_eq_true]
  rfl

/-- Cut at its point where the locale has another. -/
theorem strtod_cut (ends : AfterNumber rest) (otherPoint : locale.point ≠ [46]) (present : n.fraction ≠ []) :
    ∃ more, strtod locale other (n.text ++ rest) = some (n.cut, 46 :: more) := by
  obtain ⟨signed, written⟩ := scanSign_text (n := n) ends
  obtain ⟨within, later⟩ := whole_split (n := n) ends
  obtain ⟨more, tail⟩ : ∃ more, n.tail ++ rest = 46 :: more := by
    rw [Numeral.tail, if_neg present]
    exact ⟨_, rfl⟩
  have fraction : scanFraction locale.point (n.tail ++ rest) = ([], n.tail ++ rest) := by
    apply scanFraction_other
    rw [tail]
    intro inside
    obtain ⟨stop, -⟩ | ⟨-, wrong⟩ := point_head inside (by decide)
    · exact otherPoint stop
    · cases wrong
  have exponent : scanExponent (n.tail ++ rest) = (0, n.tail ++ rest) := by
    rw [tail, scanExponent]
    simp
  refine ⟨more, ?_⟩
  unfold strtod
  simp only [signed, written, within, later, fraction, exponent, decimal_ne_nil, false_and, if_false,
    digitsValue_decimal, Bool.false_eq_true, List.map_nil, zpow_zero, mul_one]
  rw [tail]
  simp [Numeral.cut, Numeral.signed, fractionValue]

/-- What a locale's `strtod` makes of the number. -/
def Numeral.readBy (n : Numeral) (locale : NumberLocale) : ℚ :=
  if locale.point = [46] ∨ n.fraction = [] then n.value else n.cut

theorem strtod_readBy (n : Numeral) (ends : AfterNumber rest) :
    ∃ after, strtod locale other (n.text ++ rest) = some (n.readBy locale, after) := by
  unfold Numeral.readBy
  by_cases read : locale.point = [46] ∨ n.fraction = []
  · obtain ⟨after, value, -⟩ := @strtod_text locale other n rest ends read
    exact ⟨after, by rw [if_pos read, value]⟩
  · rw [not_or] at read
    obtain ⟨more, value⟩ := @strtod_cut locale other n rest ends read.1 read.2
    exact ⟨_, by rw [if_neg (not_or.mpr read), value]⟩

theorem Numeral.readBy_eq_value_iff (n : Numeral) : n.readBy locale = n.value ↔ locale.point = [46] ∨ n.fraction = [] := by
  unfold Numeral.readBy
  by_cases read : locale.point = [46] ∨ n.fraction = []
  · rw [if_pos read]
    exact iff_of_true rfl read
  · rw [if_neg read]
    exact iff_of_false (n.cut_ne_value fun none => read (.inr none)) read

end Strtod

end Budyk.Lib
