import Budyk.Tui.Tui
import Budyk.Web.Json

/-! `json_escape` writes the contents of a JSON string that denotes the text, made UTF-8 where it is not, and
`json_unescape` reads every such string as JSON means it. -/

namespace Budyk.Proof
open Lib Tui Web

theorem appendUtf8_char (c : Char) : appendUtf8 c.toNat = String.utf8EncodeChar c := by
  have range := char_range c
  have tail : ∀ n < 64, 0x80 ||| n = 0x80 + n := by decide
  have two : ∀ n < 32, 0xc0 ||| n = 0xc0 + n := by decide
  have three : ∀ n < 16, 0xe0 ||| n = 0xe0 + n := by decide
  have four : ∀ n < 8, 0xf0 ||| n = 0xf0 + n := by decide
  have low : ∀ n, n &&& 0x3f = n % 64 := fun n => Nat.and_two_pow_sub_one_eq_mod n 6
  unfold appendUtf8
  simp only [low, Nat.shiftRight_eq_div_pow, Nat.reducePow]
  split
  next ascii => rw [utf8EncodeChar_ascii ascii]
  next notOne =>
    split
    next short =>
      rw [utf8EncodeChar_two (by omega) short, two _ (by omega), tail _ (Nat.mod_lt _ (by decide))]
    next notTwo =>
      split
      next short =>
        rw [utf8EncodeChar_three (by omega) short, three _ (by omega), tail _ (Nat.mod_lt _ (by decide)),
          tail _ (Nat.mod_lt _ (by decide))]
      next notThree =>
        rw [utf8EncodeChar_four (by omega), four _ (by omega), tail _ (Nat.mod_lt _ (by decide)),
          tail _ (Nat.mod_lt _ (by decide)), tail _ (Nat.mod_lt _ (by decide))]

/-- What the first two bytes of a sequence of `n` bytes may be. -/
def Leads (n a b : Nat) : Prop :=
  (0x80 ≤ b ∧ b < 0xc0) ∧
    (n = 2 ∧ (0xc2 ≤ a ∧ a < 0xe0) ∨
      n = 3 ∧ (0xe0 ≤ a ∧ a < 0xf0) ∧ (a = 0xe0 → 0xa0 ≤ b) ∧ (a = 0xed → b < 0xa0) ∨
      n = 4 ∧ (0xf0 ≤ a ∧ a < 0xf5) ∧ (a = 0xf0 → 0x90 ≤ b) ∧ (a = 0xf4 → b < 0x90))

theorem utf8Lead_leads (a b : UInt8) {n : Nat} (positive : n ≠ 0) :
    ((utf8Lead a).1 = n ∧ ¬(b < (utf8Lead a).2.1 ∨ (utf8Lead a).2.2 < b)) ↔ Leads n a.toNat b.toNat := by
  unfold Leads
  simp only [UInt8.lt_iff_toNat_lt, utf8Lead, UInt8.le_iff_toNat_le, ← UInt8.toNat_inj, UInt8.reduceToNat]
  repeat' split
  all_goals
    simp only [UInt8.reduceToNat]
    omega

def tails (bytes : List UInt8) : Bool := bytes.all fun b => 0x80 ≤ b && b ≤ 0xbf

theorem utf8Len_cons (a b : UInt8) (rest : List UInt8) :
    utf8Len (a :: b :: rest) =
      if rest.length + 2 < (utf8Lead a).1 ∨ b < (utf8Lead a).2.1 ∨ (utf8Lead a).2.2 < b then 0
      else if tails (rest.take ((utf8Lead a).1 - 2)) = true then (utf8Lead a).1
      else 0 := rfl

theorem utf8Len_eq {a b : UInt8} {rest : List UInt8} {n : Nat} (positive : n ≠ 0) :
    utf8Len (a :: b :: rest) = n ↔
      Leads n a.toNat b.toNat ∧ n ≤ rest.length + 2 ∧ tails (rest.take (n - 2)) = true := by
  rw [← utf8Lead_leads a b positive, utf8Len_cons]
  split
  next refused =>
    constructor
    · intro zero
      exact absurd zero.symm positive
    · rintro ⟨⟨rfl, within⟩, fits, _⟩
      rcases refused with short | outside
      · omega
      · exact absurd outside within
  next accepted =>
    rw [not_or, not_lt] at accepted
    split
    next continued =>
      constructor
      · rintro rfl
        exact ⟨⟨rfl, accepted.2⟩, accepted.1, continued⟩
      · rintro ⟨⟨same, _⟩, _⟩
        exact same
    next broken =>
      constructor
      · intro zero
        exact absurd zero.symm positive
      · rintro ⟨⟨rfl, _⟩, _, continued⟩
        exact absurd continued broken

theorem tails_cons {b : UInt8} {rest : List UInt8} :
    tails (b :: rest) = true ↔ (0x80 ≤ b.toNat ∧ b.toNat < 0xc0) ∧ tails rest = true := by
  simp only [tails, List.all_cons, Bool.and_eq_true, decide_eq_true_eq, UInt8.le_iff_toNat_le, UInt8.reduceToNat]
  exact and_congr_left fun _ => by omega

theorem utf8Len_sound {s : List UInt8} {n : Nat} (measured : utf8Len s = n) (positive : n ≠ 0) :
    ∃ c : Char, ∃ rest, 0x80 ≤ c.toNat ∧ s = String.utf8EncodeChar c ++ rest ∧ (String.utf8EncodeChar c).length = n := by
  cases s with
  | nil => exact absurd measured.symm positive
  | cons a s =>
      cases s with
      | nil => exact absurd measured.symm positive
      | cons b rest =>
          obtain ⟨⟨second, lead⟩, fits, continued⟩ := (utf8Len_eq positive).mp measured
          rcases lead with ⟨rfl, first⟩ | ⟨rfl, first, long, noSurrogate⟩ | ⟨rfl, first, long, past⟩
          · obtain ⟨c, high, encoded⟩ := char_of_two first second
            exact ⟨c, rest, high, by rw [encoded]; rfl, by rw [encoded]; rfl⟩
          · match rest, fits with
            | d :: rest, _ =>
                obtain ⟨c, high, encoded⟩ :=
                  char_of_three first second (tails_cons.mp continued).1 long noSurrogate
                exact ⟨c, rest, high, by rw [encoded]; rfl, by rw [encoded]; rfl⟩
          · match rest, fits with
            | d :: e :: rest, _ =>
                obtain ⟨third, others⟩ := tails_cons.mp continued
                obtain ⟨c, high, encoded⟩ := char_of_four first second third (tails_cons.mp others).1 long past
                exact ⟨c, rest, high, by rw [encoded]; rfl, by rw [encoded]; rfl⟩

theorem utf8Len_complete {c : Char} (high : 0x80 ≤ c.toNat) (rest : List UInt8) :
    utf8Len (String.utf8EncodeChar c ++ rest) = (String.utf8EncodeChar c).length := by
  have range := char_range c
  have toNat : ∀ n < 0x100, (UInt8.ofNat n).toNat = n := fun n small => UInt8.toNat_ofNat_of_lt' small
  by_cases two : c.toNat < 0x800
  · rw [utf8EncodeChar_two high two]
    apply (utf8Len_eq (List.length_pos_of_mem List.mem_cons_self).ne').mpr
    rw [toNat _ (by omega), toNat _ (by omega)]
    exact ⟨⟨by omega, .inl ⟨rfl, by omega⟩⟩, by simp, rfl⟩
  · by_cases three : c.toNat < 0x10000
    · rw [utf8EncodeChar_three (by omega) three]
      apply (utf8Len_eq (List.length_pos_of_mem List.mem_cons_self).ne').mpr
      rw [toNat _ (by omega), toNat _ (by omega)]
      refine ⟨⟨by omega, .inr (.inl ⟨rfl, by omega⟩)⟩, by simp, tails_cons.mpr ⟨?_, rfl⟩⟩
      rw [toNat _ (by omega)]
      omega
    · rw [utf8EncodeChar_four (by omega)]
      apply (utf8Len_eq (List.length_pos_of_mem List.mem_cons_self).ne').mpr
      rw [toNat _ (by omega), toNat _ (by omega)]
      refine ⟨⟨by omega, .inr (.inr ⟨rfl, by omega⟩)⟩, by simp, tails_cons.mpr ⟨?_, tails_cons.mpr ⟨?_, rfl⟩⟩⟩
      · rw [toNat _ (by omega)]
        omega
      · rw [toNat _ (by omega)]
        omega

/-! The loops over a text go character by character. -/

theorem text_induction {P : List UInt8 → Prop} (nil : P [])
    (ascii : ∀ b rest, b < 0x80 → P rest → P (b :: rest))
    (stray : ∀ b rest, ¬b < 0x80 → utf8Len (b :: rest) = 0 → P rest → P (b :: rest))
    (sequence : ∀ (c : Char) rest, 0x80 ≤ c.toNat → P rest → P (String.utf8EncodeChar c ++ rest)) (s : List UInt8) :
    P s := by
  induction hlen : s.length using Nat.strong_induction_on generalizing s with
  | _ n ih =>
      cases s with
      | nil => exact nil
      | cons b rest =>
          have shorter : rest.length < n := by
            rw [← hlen]
            exact Nat.lt_succ_self _
          by_cases small : b < 0x80
          · exact ascii b rest small (ih _ shorter rest rfl)
          · by_cases zero : utf8Len (b :: rest) = 0
            · exact stray b rest small zero (ih _ shorter rest rfl)
            · obtain ⟨c, after, high, whole, measured⟩ := utf8Len_sound rfl zero
              have less : after.length < n := by
                have total := congrArg List.length whole
                rw [List.length_append, hlen, measured] at total
                omega
              rw [whole]
              exact sequence c after high (ih _ less after rfl)

section Loops

theorem utf8SanitizeFrom_copies (bytes rest : List UInt8) :
    utf8SanitizeFrom bytes.length (bytes ++ rest) = bytes ++ utf8Sanitize rest := by
  induction bytes with
  | nil => rfl
  | cons b bytes ih => rw [List.length_cons, List.cons_append, utf8SanitizeFrom, ih, List.cons_append]

theorem jsonEscapeFrom_copies (bytes rest : List UInt8) :
    jsonEscapeFrom bytes.length (bytes ++ rest) = bytes ++ jsonEscape rest := by
  induction bytes with
  | nil => rfl
  | cons b bytes ih => rw [List.length_cons, List.cons_append, jsonEscapeFrom, ih, List.cons_append]

theorem utf8Sanitize_ascii {b : UInt8} (ascii : b < 0x80) (rest : List UInt8) :
    utf8Sanitize (b :: rest) = b :: utf8Sanitize rest := if_pos ascii

theorem utf8Sanitize_stray {b : UInt8} {rest : List UInt8} (high : ¬b < 0x80) (zero : utf8Len (b :: rest) = 0) :
    utf8Sanitize (b :: rest) = replacement ++ utf8Sanitize rest := by
  rw [utf8Sanitize, utf8SanitizeFrom, if_neg high, zero]
  rfl

theorem char_cons {c : Char} (high : 0x80 ≤ c.toNat) : ∃ b more, String.utf8EncodeChar c = b :: more ∧ ¬b < 0x80 := by
  have bytes := utf8EncodeChar_high high
  cases encoded : String.utf8EncodeChar c with
  | nil => exact absurd encoded String.utf8EncodeChar_ne_nil
  | cons b more =>
      have first := bytes b (by rw [encoded]; exact List.mem_cons_self)
      exact ⟨b, more, rfl, UInt8.not_lt.mpr first⟩

theorem utf8Sanitize_char {c : Char} (high : 0x80 ≤ c.toNat) (rest : List UInt8) :
    utf8Sanitize (String.utf8EncodeChar c ++ rest) = String.utf8EncodeChar c ++ utf8Sanitize rest := by
  have measured := utf8Len_complete high rest
  obtain ⟨b, more, encoded, past⟩ := char_cons high
  rw [encoded, List.cons_append] at measured ⊢
  rw [utf8Sanitize, utf8SanitizeFrom, if_neg past, measured]
  exact congrArg (b :: ·) (utf8SanitizeFrom_copies more rest)

theorem jsonEscape_ascii {b : UInt8} (ascii : b < 0x80) (rest : List UInt8) :
    jsonEscape (b :: rest) = escapeByte b ++ jsonEscape rest := if_neg (UInt8.not_le.mpr ascii)

theorem jsonEscape_stray {b : UInt8} {rest : List UInt8} (high : ¬b < 0x80) (zero : utf8Len (b :: rest) = 0) :
    jsonEscape (b :: rest) = text "\\ufffd" ++ jsonEscape rest := by
  rw [jsonEscape, jsonEscapeFrom, if_pos (UInt8.not_lt.mp high), zero]
  rfl

theorem jsonEscape_char {c : Char} (high : 0x80 ≤ c.toNat) (rest : List UInt8) :
    jsonEscape (String.utf8EncodeChar c ++ rest) = String.utf8EncodeChar c ++ jsonEscape rest := by
  have measured := utf8Len_complete high rest
  obtain ⟨b, more, encoded, past⟩ := char_cons high
  rw [encoded, List.cons_append] at measured ⊢
  rw [jsonEscape, jsonEscapeFrom, if_pos (UInt8.not_lt.mp past), measured]
  exact congrArg (b :: ·) (jsonEscapeFrom_copies more rest)

end Loops

/-! What `json_escape` writes. -/

theorem hexQuad_control : ∀ n < 32, hexNumber (hexQuad n) = some n := by decide

theorem escapeByte_ascii {b : UInt8} (ascii : b < 0x80) : ∀ c ∈ escapeByte b, c < 0x80 := by
  unfold escapeByte
  repeat' split
  all_goals try exact ascii_of_all (by decide)
  next control =>
    have digits := hexNumber_plain (hexQuad_control b.toNat control)
    simp only [List.forall_mem_cons]
    exact ⟨by decide, by decide, fun c held => (digits c held).1.2⟩
  next =>
    intro c held
    rw [List.mem_singleton.mp held]
    exact ascii

theorem escapeByte_content {b : UInt8} (ascii : b < 0x80) : StringContent (escapeByte b) [b] := by
  unfold escapeByte
  split
  next same => rw [same]; exact .short rfl .nil
  split
  next same => rw [same]; exact .short rfl .nil
  split
  next same => rw [same]; exact .short rfl .nil
  split
  next same => rw [same]; exact .short rfl .nil
  split
  next same => rw [same]; exact .short rfl .nil
  split
  next same => rw [same]; exact .short rfl .nil
  split
  next same => rw [same]; exact .short rfl .nil
  split
  next noQuote noBackslash _ _ _ _ _ control =>
    obtain ⟨c, encoded, value⟩ := utf8EncodeChar_of_byte ascii
    rw [← encoded, ← List.append_nil (String.utf8EncodeChar c)]
    have code := hexQuad_control b.toNat control
    rw [← value] at code ⊢
    exact .unicode code .nil
  next noQuote noBackslash _ _ _ _ _ printable =>
    exact .plain (UInt8.not_lt.mp printable) noQuote noBackslash .nil

theorem jsonEscape_content (s : List UInt8) : StringContent (jsonEscape s) (utf8Sanitize s) := by
  induction s using text_induction with
  | nil => exact .nil
  | ascii b rest ascii ih =>
      rw [jsonEscape_ascii ascii, utf8Sanitize_ascii ascii]
      exact (escapeByte_content ascii).append ih
  | stray b rest high zero ih =>
      rw [jsonEscape_stray high zero, utf8Sanitize_stray high zero]
      have code : hexNumber (text "fffd") = some (Char.ofNat 0xfffd).toNat := by decide
      exact .unicode code ih
  | sequence c rest high ih =>
      rw [jsonEscape_char high, utf8Sanitize_char high]
      have bytes : plainBytes (String.utf8EncodeChar c) = true := by
        apply List.all_eq_true.mpr
        intro b held
        have past := UInt8.le_iff_toNat_le.mp (utf8EncodeChar_high high b held)
        simp only [quote, backslash, UInt8.le_iff_toNat_le, ← UInt8.toNat_inj, ne_eq, Bool.and_eq_true,
          decide_eq_true_eq, UInt8.reduceToNat] at past ⊢
        omega
      exact (StringContent.self bytes).append ih

theorem jsonEscape_utf8 (s : List UInt8) : Utf8 (jsonEscape s) := by
  induction s using text_induction with
  | nil => exact Utf8.nil
  | ascii b rest ascii ih =>
      rw [jsonEscape_ascii ascii]
      exact (utf8_ascii (escapeByte_ascii ascii)).append ih
  | stray b rest high zero ih =>
      rw [jsonEscape_stray high zero]
      have escape : Utf8 (text "\\ufffd") := utf8_literal (by decide)
      exact escape.append ih
  | sequence c rest high ih =>
      rw [jsonEscape_char high]
      exact (Utf8.char c).append ih

theorem utf8Sanitize_utf8 (s : List UInt8) : Utf8 (utf8Sanitize s) := by
  induction s using text_induction with
  | nil => exact Utf8.nil
  | ascii b rest ascii ih =>
      rw [utf8Sanitize_ascii ascii]
      exact Utf8.cons ascii ih
  | stray b rest high zero ih =>
      rw [utf8Sanitize_stray high zero]
      exact (Utf8.char (Char.ofNat 0xfffd)).append ih
  | sequence c rest high ih =>
      rw [utf8Sanitize_char high]
      exact (Utf8.char c).append ih

theorem utf8Sanitize_of_utf8 {s : List UInt8} (utf8 : Utf8 s) : utf8Sanitize s = s := by
  obtain ⟨chars, rfl⟩ := utf8
  induction chars with
  | nil => rfl
  | cons c chars ih =>
      rw [List.flatMap_cons]
      by_cases high : 0x80 ≤ c.toNat
      · rw [utf8Sanitize_char high, ih]
      · have ascii : UInt8.ofNat c.toNat < 0x80 := by
          have small : c.toNat < 2 ^ 8 := by omega
          rw [UInt8.lt_iff_toNat_lt, UInt8.toNat_ofNat_of_lt' small]
          exact not_le.mp high
        rw [utf8EncodeChar_ascii (by omega), List.singleton_append, utf8Sanitize_ascii ascii, ih]

/-! What `json_unescape` reads. -/

theorem jsonUnescape_plain {b : UInt8} (noBackslash : b ≠ backslash) (rest : List UInt8) :
    jsonUnescape (b :: rest) = b :: jsonUnescape rest := by
  rw [jsonUnescape.eq_def]
  simp only [ne_eq, noBackslash, not_false_eq_true, if_true]

theorem jsonUnescape_short {c : UInt8} (noUnicode : c ≠ 117) (rest : List UInt8) :
    jsonUnescape (backslash :: c :: rest) = unescapeByte c :: jsonUnescape rest := by
  rw [jsonUnescape.eq_def]
  simp only [ne_eq, noUnicode, not_true_eq_false, not_false_eq_true, if_true, if_false]

theorem jsonUnescape_unicode {h₁ h₂ h₃ h₄ : UInt8} {code : Nat} (number : hexNumber [h₁, h₂, h₃, h₄] = some code)
    (single : ¬(0xd800 ≤ code ∧ code ≤ 0xdbff) ∧ ¬(0xdc00 ≤ code ∧ code ≤ 0xdfff)) (rest : List UInt8) :
    jsonUnescape (backslash :: 117 :: h₁ :: h₂ :: h₃ :: h₄ :: rest) = appendUtf8 code ++ jsonUnescape rest := by
  have read : hex4 h₁ h₂ h₃ h₄ = code := by rw [hex4, number, Option.getD_some]
  rw [jsonUnescape.eq_def]
  simp only [ne_eq, not_true_eq_false, if_false, read, single]

theorem jsonUnescape_pair {h₁ h₂ h₃ h₄ l₁ l₂ l₃ l₄ : UInt8} {code lo : Nat} (high : hexNumber [h₁, h₂, h₃, h₄] = some code)
    (low : hexNumber [l₁, l₂, l₃, l₄] = some lo) (first : 0xd800 ≤ code ∧ code ≤ 0xdbff) (second : 0xdc00 ≤ lo ∧ lo ≤ 0xdfff)
    (rest : List UInt8) :
    jsonUnescape (backslash :: 117 :: h₁ :: h₂ :: h₃ :: h₄ :: backslash :: 117 :: l₁ :: l₂ :: l₃ :: l₄ :: rest) =
      appendUtf8 (0x10000 + (code - 0xd800) <<< 10 + (lo - 0xdc00)) ++ jsonUnescape rest := by
  have read : hex4 h₁ h₂ h₃ h₄ = code := by rw [hex4, high, Option.getD_some]
  have readLow : hex4 l₁ l₂ l₃ l₄ = lo := by rw [hex4, low, Option.getD_some]
  rw [jsonUnescape.eq_def]
  simp only [ne_eq, not_true_eq_false, if_false, read, readLow, first, second, and_self, if_true]

theorem unescapeByte_shortForm {c b : UInt8} (form : shortForm c = some b) : unescapeByte c = b ∧ c ≠ 117 := by
  simp only [shortForm, Bool.or_eq_true, decide_eq_true_eq] at form
  split at form
  next known =>
    cases form
    rcases known with (rfl | rfl) | rfl <;> decide
  next =>
    repeat' split at form
    all_goals first | (subst_vars; cases form; decide) | cases form

theorem jsonUnescape_append {content value : List UInt8} (denotes : StringContent content value) (rest : List UInt8) :
    jsonUnescape (content ++ rest) = value ++ jsonUnescape rest := by
  induction denotes with
  | nil => rfl
  | plain _ _ noBackslash _ ih => rw [List.cons_append, jsonUnescape_plain noBackslash, ih, List.cons_append]
  | short form _ ih =>
      obtain ⟨same, noUnicode⟩ := unescapeByte_shortForm form
      rw [List.cons_append, List.cons_append, jsonUnescape_short noUnicode, same, ih, List.cons_append]
  | @unicode _ _ _ _ c _ _ code _ ih =>
      have range := char_range c
      simp only [List.cons_append]
      rw [jsonUnescape_unicode code (by omega), appendUtf8_char, ih, List.append_assoc]
  | @pair _ _ _ _ _ _ _ _ c _ _ past high low _ ih =>
      obtain ⟨first, second, whole⟩ := surrogates_range c past
      have power : (2 : Nat) ^ 10 = 0x400 := rfl
      simp only [List.cons_append]
      rw [jsonUnescape_pair high low (by omega) (by omega), Nat.shiftLeft_eq, power, whole, appendUtf8_char, ih,
        List.append_assoc]

theorem jsonUnescape_content {content value : List UInt8} (denotes : StringContent content value) :
    jsonUnescape content = value := by
  have whole := jsonUnescape_append denotes []
  rwa [jsonUnescape, List.append_nil, List.append_nil] at whole

/-- A password is read back as it was typed, up to bytes that are not UTF-8. -/
theorem json_text_round_trip (s : List UInt8) :
    jsonUnescape (jsonEscape s) = utf8Sanitize s ∧ StringContent (jsonEscape s) (utf8Sanitize s) ∧
      Utf8 (jsonEscape s) ∧ (∀ b ∈ jsonEscape s, 0x20 ≤ b) ∧ Escaped (jsonEscape s) ∧
      jsonGetString (loginBody s) (text "password") = some (utf8Sanitize s) := by
  have content := jsonEscape_content s
  have read := jsonUnescape_content content
  refine ⟨read, content, jsonEscape_utf8 s, content.printable, content.escaped, ?_⟩
  have body : loginBody s =
      123 :: quote :: (text "password" ++ quote :: 58 :: quote :: (jsonEscape s ++ quote :: [125])) := by
    simp [loginBody, jsonQuote]
    rfl
  rw [body, jsonGetString_first content.escaped, read]

end Budyk.Proof
