import Budyk.Proof.JsonText

/-! `utf8_sanitize` makes any bytes UTF-8, and reads none past their end. -/

namespace Budyk.Proof
open Lib

theorem tailsAt_eq (s : List UInt8) (i : Nat) {k n : Nat} (within : i + k + n ≤ s.length) :
    tailsAt s i (List.range' k n) = some (tails ((s.drop (i + k)).take n)) := by
  induction n generalizing k with
  | zero => rfl
  | succ n ih =>
      have here : i + k < s.length := by omega
      rw [List.range'_succ, tailsAt, List.getElem?_eq_getElem here, Option.bind_some, ih (by omega),
        List.drop_eq_getElem_cons here, List.take_succ_cons]
      unfold tails
      rw [List.all_cons, Nat.add_assoc i k 1]
      split
      next outside =>
        have refused : (decide (0x80 ≤ s[i + k]) && decide (s[i + k] ≤ 0xbf)) = false := by
          rw [Bool.and_eq_false_iff, decide_eq_false_iff_not, decide_eq_false_iff_not, UInt8.not_le, UInt8.not_le]
          exact outside
        rw [refused, Bool.false_and]
      next inside =>
        rw [not_or, UInt8.not_lt, UInt8.not_lt] at inside
        rw [decide_eq_true inside.1, decide_eq_true inside.2, Bool.true_and, Bool.true_and]

theorem utf8Lead_length (c : UInt8) : (utf8Lead c).1 = 0 ∨ 2 ≤ (utf8Lead c).1 := by
  unfold utf8Lead
  repeat' split
  all_goals simp

theorem utf8LenAt_eq {s : List UInt8} {i : Nat} (within : i < s.length) : utf8LenAt s i = some (utf8Len (s.drop i)) := by
  rw [utf8LenAt, List.getElem?_eq_getElem within, Option.bind_some, List.drop_eq_getElem_cons within]
  rcases utf8Lead_length s[i] with absent | present
  · dsimp only
    rw [if_pos (.inl absent)]
    cases s.drop (i + 1) with
    | nil => rfl
    | cons b rest =>
        rw [utf8Len_cons, absent]
        split
        · rfl
        · split <;> rfl
  · by_cases short : s.length < i + (utf8Lead s[i]).1
    · dsimp only
      rw [if_pos (.inr short)]
      have length : (s.drop (i + 1)).length = s.length - (i + 1) := List.length_drop
      cases rest : s.drop (i + 1) with
      | nil => rfl
      | cons b rest' =>
          rw [rest, List.length_cons] at length
          rw [utf8Len_cons, if_pos (.inl (by omega))]
    · have second : i + 1 < s.length := by omega
      have after := tailsAt_eq s i (k := 2) (n := (utf8Lead s[i]).1 - 2) (by omega)
      dsimp only
      rw [if_neg (by omega), List.getElem?_eq_getElem second, Option.bind_some, List.drop_eq_getElem_cons second,
        utf8Len_cons, after, Option.map_some, Nat.add_assoc i 1 1]
      by_cases outside : s[i + 1] < (utf8Lead s[i]).2.1 ∨ (utf8Lead s[i]).2.2 < s[i + 1]
      · rw [if_pos outside, if_pos (.inr outside)]
      · have accepted : ¬((s.drop (i + (1 + 1))).length + 2 < (utf8Lead s[i]).1 ∨ s[i + 1] < (utf8Lead s[i]).2.1 ∨
            (utf8Lead s[i]).2.2 < s[i + 1]) := not_or.mpr ⟨by rw [List.length_drop]; omega, outside⟩
        rw [if_neg outside, if_neg accepted]

theorem utf8SanitizeAt_eq (s : List UInt8) (i : Nat) : utf8SanitizeAt s i = some (utf8Sanitize (s.drop i)) := by
  induction left : s.length - i using Nat.strong_induction_on generalizing i with
  | _ n ih =>
      rw [utf8SanitizeAt]
      split
      next within =>
        rw [List.getElem?_eq_getElem within, Option.bind_some, utf8LenAt_eq within, Option.bind_some,
          List.drop_eq_getElem_cons within]
        have one := ih (s.length - (i + 1)) (by omega) (i + 1) rfl
        split
        next ascii => rw [one, Option.map_some, utf8Sanitize_ascii ascii]
        next high =>
          split
          next zero => rw [one, Option.map_some, utf8Sanitize_stray high zero]
          next positive =>
            rw [← List.drop_eq_getElem_cons within] at positive ⊢
            obtain ⟨c, rest, past, whole, measured⟩ := utf8Len_sound rfl positive
            have further := ih (s.length - (i + utf8Len (s.drop i))) (by omega) _ rfl
            have skipped : s.drop (i + utf8Len (s.drop i)) = rest := by
              rw [← measured, ← List.drop_drop, whole, List.drop_left]
            rw [further, Option.map_some, skipped, ← measured, whole, List.take_left, utf8Sanitize_char past]
      next beyond => rw [List.drop_eq_nil_of_le (by omega)]; rfl

/-! ## What comes out -/

theorem ascii_one {b : UInt8} (ascii : b < 0x80) : b ≤ 0x7f := by
  simp only [UInt8.lt_iff_toNat_lt, UInt8.le_iff_toNat_le, UInt8.reduceToNat] at ascii ⊢
  omega

theorem sequence_measured {first : List UInt8} (sequence : Utf8Sequence first) (rest : List UInt8) :
    (∃ b, first = [b] ∧ b < 0x80) ∨ utf8Len (first ++ rest) = first.length ∧
      utf8Sanitize (first ++ rest) = first ++ utf8Sanitize rest := by
  obtain ⟨c, rfl⟩ := sequence.char
  by_cases high : 0x80 ≤ c.toNat
  · exact .inr ⟨utf8Len_complete high rest, utf8Sanitize_char high rest⟩
  · have small : c.toNat < 0x100 := by omega
    refine .inl ⟨_, utf8EncodeChar_ascii (not_le.mp high), ?_⟩
    rw [UInt8.lt_iff_toNat_lt, UInt8.toNat_ofNat_of_lt' small]
    exact not_le.mp high

theorem utf8Repaired_sanitize (s : List UInt8) : Utf8Repaired replacement s (utf8Sanitize s) := by
  induction s using text_induction with
  | nil => exact .nil
  | ascii b rest ascii ih =>
      rw [utf8Sanitize_ascii ascii]
      exact .sequence (.one (ascii_one ascii)) ih
  | stray b rest high zero ih =>
      rw [utf8Sanitize_stray high zero]
      refine .stray ?_ ih
      rintro first sequence ⟨after, whole⟩
      rcases sequence_measured sequence after with ⟨c, rfl, ascii⟩ | ⟨measured, -⟩
      · cases whole
        exact high ascii
      · rw [whole, zero] at measured
        rw [List.length_eq_zero_iff.mp measured.symm] at sequence
        cases sequence
  | sequence c rest high ih =>
      rw [utf8Sanitize_char high]
      exact .sequence (utf8Sequence_char c) ih

theorem utf8Repaired_unique {s out : List UInt8} (repaired : Utf8Repaired replacement s out) : out = utf8Sanitize s := by
  induction repaired with
  | nil => rfl
  | @sequence first rest out sequence _ ih =>
      rw [ih]
      rcases sequence_measured sequence rest with ⟨b, rfl, ascii⟩ | ⟨-, copied⟩
      · exact (utf8Sanitize_ascii ascii rest).symm
      · exact copied.symm
  | @stray b rest out strays _ ih =>
      have high : ¬b < 0x80 := fun ascii => strays [b] (.one (ascii_one ascii)) ⟨rest, rfl⟩
      have zero : utf8Len (b :: rest) = 0 := by
        by_contra positive
        obtain ⟨c, after, -, whole, -⟩ := utf8Len_sound rfl positive
        exact strays _ (utf8Sequence_char c) ⟨after, whole.symm⟩
      rw [ih, utf8Sanitize_stray high zero]

/-- The result is UTF-8, the text itself where that is UTF-8 already, and else the text with each stray byte replaced. -/
theorem utf8_sanitize_normalises (s : List UInt8) :
    utf8SanitizeAt s 0 = some (utf8Sanitize s) ∧ Utf8Octets (utf8Sanitize s) ∧
      (utf8Sanitize s = s ↔ Utf8Octets s) ∧ utf8Sanitize (utf8Sanitize s) = utf8Sanitize s ∧
      ∀ out, Utf8Repaired replacement s out ↔ out = utf8Sanitize s := by
  have octets := utf8_octets.mp (utf8Sanitize_utf8 s)
  refine ⟨utf8SanitizeAt_eq s 0, octets, ⟨fun same => same ▸ octets, fun utf8 => ?_⟩, ?_, fun out => ?_⟩
  · exact utf8Sanitize_of_utf8 (utf8_octets.mpr utf8)
  · exact utf8Sanitize_of_utf8 (utf8Sanitize_utf8 s)
  · constructor
    · exact utf8Repaired_unique
    · rintro rfl
      exact utf8Repaired_sanitize s

end Budyk.Proof
