import Budyk.Lib.Json

/-! JSON objects whose members are strings, as the grammar writes them: blanks between any two tokens, names without
escapes, and values with any. -/

namespace Budyk.Lib

/-- The escape of a low surrogate stands first. -/
def LowEscape (s : List UInt8) : Prop :=
  ∃ l₁ l₂ l₃ l₄ low rest, s = backslash :: 117 :: l₁ :: l₂ :: l₃ :: l₄ :: rest ∧
    hexNumber [l₁, l₂, l₃, l₄] = some low ∧ 0xdc00 ≤ low ∧ low < 0xe000

/-- The text between the quotes and what it denotes, a surrogate on its own being U+FFFD. -/
inductive StringValue : List UInt8 → List UInt8 → Prop
  | content {content value : List UInt8} : StringContent content value → StringValue content value
  | lone {first rest value others : List UInt8} {h₁ h₂ h₃ h₄ : UInt8} {code : Nat} : StringContent first value →
      hexNumber [h₁, h₂, h₃, h₄] = some code → 0xd800 ≤ code → code < 0xe000 → (code < 0xdc00 → ¬LowEscape rest) →
      StringValue rest others →
      StringValue (first ++ backslash :: 117 :: h₁ :: h₂ :: h₃ :: h₄ :: rest)
        (value ++ String.utf8EncodeChar (Char.ofNat 0xfffd) ++ others)

theorem Escaped.append {first rest : List UInt8} (one : Escaped first) (two : Escaped rest) : Escaped (first ++ rest) := by
  induction one with
  | nil => exact two
  | plain noQuote noBackslash _ ih => exact .plain noQuote noBackslash ih
  | escape c _ ih => exact .escape c ih

theorem StringValue.escaped {content value : List UInt8} (denotes : StringValue content value) : Escaped content := by
  induction denotes with
  | content denotes => exact denotes.escaped
  | lone first code _ _ _ _ ih =>
      exact first.escaped.append (.escape _ (Escaped.append_plain (fun b held => (hexNumber_plain code b held).2) ih))

def Blanks (s : List UInt8) : Prop := ∀ b ∈ s, jsonBlank b = true

structure FlatMember where
  before : List UInt8
  name : List UInt8
  afterName : List UInt8
  afterColon : List UInt8
  content : List UInt8
  value : List UInt8
  after : List UInt8
  blanks : Blanks before ∧ Blanks afterName ∧ Blanks afterColon ∧ Blanks after
  plain : plainBytes name = true
  denotes : StringValue content value

def FlatMember.text (m : FlatMember) : List UInt8 :=
  m.before ++ quote :: m.name ++ quote :: m.afterName ++ 58 :: m.afterColon ++ quote :: m.content ++ quote :: m.after

structure FlatObject where
  before : List UInt8
  inside : List UInt8
  members : List FlatMember
  after : List UInt8
  blanks : Blanks before ∧ Blanks inside ∧ Blanks after

def membersText : List FlatMember → List UInt8
  | [] => []
  | [m] => m.text
  | m :: next :: more => m.text ++ 44 :: membersText (next :: more)

def FlatObject.text (o : FlatObject) : List UInt8 :=
  o.before ++ 123 :: o.inside ++ membersText o.members ++ 125 :: o.after

/-- The value of the first member of the name. -/
def FlatObject.lookup (o : FlatObject) (name : List UInt8) : Option (List UInt8) :=
  (o.members.find? fun m => m.name = name).map FlatMember.value

end Budyk.Lib
