import Budyk.Lib.Find
import Budyk.Lib.Json

/-! A key of a JSON text searched for by its bytes, quotes and all: what the search passes over. -/

namespace Budyk.Lib

/-- The bytes of keys and names. -/
def wordByte (b : UInt8) : Bool := (97 ≤ b && b ≤ 122) || (48 ≤ b && b ≤ 57) || b = 95 || b = 46

def isWord (k : List UInt8) : Bool := !k.isEmpty && k.all wordByte

/-- `"k"` and what is asked to follow it. -/
abbrev quotedKey (k tail : List UInt8) : List UInt8 := quote :: (k ++ quote :: tail)

theorem wordByte_plain {b : UInt8} (word : wordByte b = true) : b ≠ quote ∧ b ≠ backslash := by
  constructor
  · rintro rfl
    cases word
  · rintro rfl
    cases word

theorem isWord_plain {k : List UInt8} (word : isWord k = true) : ∀ b ∈ k, b ≠ quote ∧ b ≠ backslash := by
  intro b held
  rw [isWord, Bool.and_eq_true, List.all_eq_true] at word
  exact wordByte_plain (word.2 b held)

theorem isWord_head {k : List UInt8} (word : isWord k = true) : ∃ b more, k = b :: more ∧ wordByte b = true := by
  rw [isWord, Bool.and_eq_true, List.all_eq_true] at word
  cases k with
  | nil => cases word.1
  | cons b more => exact ⟨b, more, rfl, word.2 b List.mem_cons_self⟩

theorem escaped_of_plain {c : List UInt8} (plain : ∀ b ∈ c, b ≠ quote ∧ b ≠ backslash) : Escaped c := by
  rw [← List.append_nil c]
  exact Escaped.append_plain plain .nil

section Content
variable {k tail rest content : List UInt8}

/-- The first quote that stands bare ends the contents. -/
theorem content_of_begins (escaped : Escaped content) (plain : ∀ b ∈ k, b ≠ quote ∧ b ≠ backslash)
    (occurs : k ++ quote :: tail <+: content ++ quote :: rest) : content = k ∧ tail <+: rest := by
  induction escaped generalizing k with
  | nil =>
      cases k with
      | nil => exact ⟨rfl, (List.cons_prefix_cons.mp occurs).2⟩
      | cons b k => exact absurd (List.cons_prefix_cons.mp occurs).1 (plain b List.mem_cons_self).1
  | plain noQuote _ _ ih =>
      cases k with
      | nil => exact absurd (List.cons_prefix_cons.mp occurs).1.symm noQuote
      | cons b k =>
          obtain ⟨rfl, later⟩ := List.cons_prefix_cons.mp occurs
          obtain ⟨rfl, follows⟩ := ih (fun c held => plain c (List.mem_cons_of_mem _ held)) later
          exact ⟨rfl, follows⟩
  | escape c _ _ =>
      cases k with
      | nil => exact absurd (List.cons_prefix_cons.mp occurs).1 (by decide)
      | cons b k => exact absurd (List.cons_prefix_cons.mp occurs).1 (plain b List.mem_cons_self).2

/-- What follows a quote in the contents is escaped as they are. -/
theorem Escaped.after_quote {i : Nat} {after : List UInt8} (escaped : Escaped content)
    (here : content.drop i = quote :: after) : Escaped after := by
  induction escaped generalizing i with
  | nil =>
      rw [List.drop_nil] at here
      cases here
  | plain noQuote _ _ ih =>
      cases i with
      | zero => exact absurd (List.cons.inj here).1 noQuote
      | succ i => exact ih here
  | escape c escaped ih =>
      match i with
      | 0 => exact absurd (List.cons.inj here).1 (by decide)
      | 1 =>
          obtain rfl := (List.cons.inj here).2
          exact escaped
      | i + 2 => exact ih here

end Content

/-! ## Passing over -/

/-- No occurrence of the key begins in the text, whatever follows it. -/
def Clear (k tail text : List UInt8) : Prop := ∀ rest, Passes (quotedKey k tail) text rest

/-- The same of a text and the punctuation after it. -/
def ClosedOff (k tail text : List UInt8) : Prop := ∀ stop ∈ [44, 93, 125], Clear k tail (text ++ [stop])

section Clear
variable {k tail first second text : List UInt8}

theorem Clear.append (one : Clear k tail first) (two : Clear k tail second) : Clear k tail (first ++ second) :=
  fun rest => Passes.append (one (second ++ rest)) (two rest)

theorem clear_of_unquoted (unquoted : quote ∉ text) : Clear k tail text := fun _ => passes_of_not_mem unquoted

theorem Clear.never (clear : Clear k tail text) (i : Nat) : ¬quotedKey k tail <+: text.drop i := by
  rcases Nat.lt_or_ge i text.length with inside | past
  · have here := clear [] i inside
    rwa [List.append_nil] at here
  · rw [List.drop_of_length_le past]
    exact fun occurs => List.cons_ne_nil _ _ (List.prefix_nil.mp occurs)

theorem clear_nil : Clear k tail [] := clear_of_unquoted (List.not_mem_nil)

theorem Clear.closedOff (clear : Clear k tail text) : ClosedOff k tail text := by
  intro stop among
  apply clear.append
  apply clear_of_unquoted
  intro quoted
  rw [← List.mem_singleton.mp quoted] at among
  revert among
  decide

variable (word : isWord k = true)
include word

/-- Contents up to their closing quote: the needle begins at none of their own. -/
theorem clear_contents {content : List UInt8} {stop : UInt8} (escaped : Escaped content) (stops : wordByte stop = false)
    (notQuote : stop ≠ quote) (other : quote ∈ content → ∀ rest, ¬tail <+: stop :: rest) :
    Clear k tail (content ++ [quote, stop]) := by
  intro rest i inside occurs
  rw [List.append_assoc] at occurs
  simp only [List.length_append, List.length_cons, List.length_nil] at inside
  rcases Nat.lt_or_ge i content.length with within | past
  · obtain ⟨b, after, here⟩ : ∃ b after, content.drop i = b :: after := ⟨_, _, List.drop_eq_getElem_cons within⟩
    rw [List.drop_append_of_le_length (Nat.le_of_lt within), here, List.cons_append] at occurs
    obtain ⟨rfl, later⟩ := List.cons_prefix_cons.mp occurs
    have follows := (content_of_begins (escaped.after_quote here) (isWord_plain word) later).2
    exact other (List.mem_of_mem_drop (here ▸ List.mem_cons_self)) rest follows
  · rw [List.drop_append, List.drop_of_length_le past, List.nil_append] at occurs
    obtain ⟨b, more, rfl, letter⟩ := isWord_head word
    rcases Nat.eq_or_lt_of_le past with closing | beyond
    · rw [closing, Nat.sub_self, List.drop_zero] at occurs
      obtain ⟨rfl, -⟩ := List.cons_prefix_cons.mp (List.cons_prefix_cons.mp occurs).2
      rw [letter] at stops
      cases stops
    · rw [show i - content.length = 1 by omega] at occurs
      exact notQuote (List.cons_prefix_cons.mp occurs).1.symm

/-- A string in quotes that is not the one looked for. -/
theorem clear_string {content : List UInt8} {stop : UInt8} (escaped : Escaped content) (stops : wordByte stop = false)
    (notQuote : stop ≠ quote) (other : quote ∈ content → ∀ rest, ¬tail <+: stop :: rest)
    (differs : ∀ rest, ¬(content = k ∧ tail <+: stop :: rest)) : Clear k tail (quote :: content ++ [quote, stop]) := by
  intro rest i inside occurs
  cases i with
  | zero =>
      have text : quote :: content ++ [quote, stop] ++ rest = quote :: (content ++ quote :: stop :: rest) := by simp
      rw [List.drop_zero, text] at occurs
      exact differs rest (content_of_begins escaped (isWord_plain word) (List.cons_prefix_cons.mp occurs).2)
  | succ i => exact clear_contents word escaped stops notQuote other rest i (Nat.lt_of_succ_lt_succ inside) occurs

/-- Another key, or another name. -/
theorem clear_word {content : List UInt8} {stop : UInt8} (plain : isWord content = true) (differs : content ≠ k)
    (stops : wordByte stop = false) (notQuote : stop ≠ quote) : Clear k tail (quote :: content ++ [quote, stop]) := by
  apply clear_string word (escaped_of_plain (isWord_plain plain)) stops notQuote
  · exact fun held => absurd rfl (isWord_plain plain quote held).1
  · exact fun _ same => differs same.1

theorem closedOff_word {content : List UInt8} (plain : isWord content = true) (differs : content ≠ k) :
    ClosedOff k tail (quote :: content ++ [quote]) := by
  intro stop among
  rw [List.append_assoc]
  have known : wordByte stop = false ∧ stop ≠ quote := by
    simp only [List.mem_cons, List.not_mem_nil, or_false] at among
    rcases among with rfl | rfl | rfl <;> decide
  exact clear_word word plain differs known.1 known.2

/-- Any value, where a colon is asked for after the key. -/
theorem closedOff_value {content : List UInt8} (escaped : Escaped content) :
    ClosedOff k (58 :: tail) (quote :: content ++ [quote]) := by
  intro stop among
  rw [List.append_assoc]
  have known : wordByte stop = false ∧ stop ≠ quote ∧ stop ≠ 58 := by
    simp only [List.mem_cons, List.not_mem_nil, or_false] at among
    rcases among with rfl | rfl | rfl <;> decide
  have colon (rest : List UInt8) : ¬58 :: tail <+: stop :: rest :=
    fun follows => known.2.2 (List.cons_prefix_cons.mp follows).1.symm
  apply clear_string word escaped known.1 known.2.1
  · exact fun _ => colon
  · exact fun rest same => colon rest same.2

end Clear

/-! ## Lists and objects -/

section Items
variable {k tail : List UInt8}

theorem closedOff_intercalate {items : List (List UInt8)} (closed : ∀ item ∈ items, ClosedOff k tail item) :
    ClosedOff k tail ([44].intercalate items) := by
  induction items with
  | nil => exact clear_nil.closedOff
  | cons item items ih =>
      cases items with
      | nil => simpa using closed item List.mem_cons_self
      | cons next items =>
          intro stop among
          rw [List.intercalate_cons_cons, List.append_assoc]
          exact (closed item List.mem_cons_self 44 (by decide)).append
            (ih (fun other held => closed other (List.mem_cons_of_mem _ held)) stop among)

end Items

end Budyk.Lib
