import Budyk.Lib.Text

/-! UTF-8: a byte string is the encoding of a text, and which bytes a character can have. -/

namespace Budyk.Lib

def Utf8 (bytes : List UInt8) : Prop := ∃ chars : List Char, bytes = chars.flatMap String.utf8EncodeChar

theorem Utf8.nil : Utf8 [] := ⟨[], rfl⟩

theorem Utf8.char (c : Char) : Utf8 (String.utf8EncodeChar c) := ⟨[c], by simp⟩

theorem Utf8.append {first second : List UInt8} (one : Utf8 first) (two : Utf8 second) : Utf8 (first ++ second) := by
  obtain ⟨chars, rfl⟩ := one
  obtain ⟨others, rfl⟩ := two
  exact ⟨chars ++ others, List.flatMap_append.symm⟩

theorem utf8EncodeChar_ascii {c : Char} (ascii : c.toNat < 128) : String.utf8EncodeChar c = [UInt8.ofNat c.toNat] :=
  if_pos (Nat.le_of_lt_succ ascii)

theorem utf8EncodeChar_two {c : Char} (least : 0x80 ≤ c.toNat) (most : c.toNat < 0x800) :
    String.utf8EncodeChar c = [UInt8.ofNat (0xc0 + c.toNat / 64), UInt8.ofNat (0x80 + c.toNat % 64)] := by
  have first : c.toNat / 64 % 0x20 + 0xc0 = 0xc0 + c.toNat / 64 := by omega
  have second : c.toNat % 0x40 + 0x80 = 0x80 + c.toNat % 64 := by omega
  rw [← first, ← second]
  exact (if_neg (Nat.not_le.mpr least)).trans (if_pos (Nat.le_of_lt_succ most))

theorem utf8EncodeChar_three {c : Char} (least : 0x800 ≤ c.toNat) (most : c.toNat < 0x10000) :
    String.utf8EncodeChar c = [UInt8.ofNat (0xe0 + c.toNat / 4096), UInt8.ofNat (0x80 + c.toNat / 64 % 64),
      UInt8.ofNat (0x80 + c.toNat % 64)] := by
  have first : c.toNat / 4096 % 0x10 + 0xe0 = 0xe0 + c.toNat / 4096 := by omega
  have second : c.toNat / 64 % 0x40 + 0x80 = 0x80 + c.toNat / 64 % 64 := by omega
  have third : c.toNat % 0x40 + 0x80 = 0x80 + c.toNat % 64 := by omega
  rw [← first, ← second, ← third]
  have past : ¬c.toNat ≤ 0x7f := by omega
  exact (if_neg past).trans ((if_neg (Nat.not_le.mpr least)).trans (if_pos (Nat.le_of_lt_succ most)))

theorem char_range (c : Char) : c.toNat < 0xd800 ∨ 0xdfff < c.toNat ∧ c.toNat < 0x110000 := c.valid

theorem utf8EncodeChar_four {c : Char} (least : 0x10000 ≤ c.toNat) :
    String.utf8EncodeChar c = [UInt8.ofNat (0xf0 + c.toNat / 262144), UInt8.ofNat (0x80 + c.toNat / 4096 % 64),
      UInt8.ofNat (0x80 + c.toNat / 64 % 64), UInt8.ofNat (0x80 + c.toNat % 64)] := by
  have range := char_range c
  have first : c.toNat / 262144 % 0x08 + 0xf0 = 0xf0 + c.toNat / 262144 := by omega
  have second : c.toNat / 4096 % 0x40 + 0x80 = 0x80 + c.toNat / 4096 % 64 := by omega
  have third : c.toNat / 64 % 0x40 + 0x80 = 0x80 + c.toNat / 64 % 64 := by omega
  have fourth : c.toNat % 0x40 + 0x80 = 0x80 + c.toNat % 64 := by omega
  rw [← first, ← second, ← third, ← fourth]
  have past : ¬c.toNat ≤ 0x7f ∧ ¬c.toNat ≤ 0x7ff := by omega
  exact (if_neg past.1).trans ((if_neg past.2).trans (if_neg (Nat.not_le.mpr least)))

theorem char_of {n : Nat} (valid : n.isValidChar) : ∃ c : Char, c.toNat = n := ⟨Char.ofNatAux n valid, rfl⟩

private theorem ofNat_eq {b : UInt8} {n : Nat} (same : n = b.toNat) : UInt8.ofNat n = b := by
  rw [same, UInt8.ofNat_toNat]

/-! Bytes of the ranges RFC 3629 lists are a character. -/

theorem char_of_two {a b : UInt8} (lead : 0xc2 ≤ a.toNat ∧ a.toNat < 0xe0) (tail : 0x80 ≤ b.toNat ∧ b.toNat < 0xc0) :
    ∃ c : Char, 0x80 ≤ c.toNat ∧ String.utf8EncodeChar c = [a, b] := by
  have valid : ((a.toNat - 0xc0) * 64 + (b.toNat - 0x80)).isValidChar := .inl (by omega)
  obtain ⟨c, value⟩ := char_of valid
  refine ⟨c, by omega, ?_⟩
  rw [utf8EncodeChar_two (by omega) (by omega), ofNat_eq (b := a) (by omega), ofNat_eq (b := b) (by omega)]

theorem char_of_three {a b d : UInt8} (lead : 0xe0 ≤ a.toNat ∧ a.toNat < 0xf0) (second : 0x80 ≤ b.toNat ∧ b.toNat < 0xc0)
    (tail : 0x80 ≤ d.toNat ∧ d.toNat < 0xc0) (long : a.toNat = 0xe0 → 0xa0 ≤ b.toNat)
    (noSurrogate : a.toNat = 0xed → b.toNat < 0xa0) :
    ∃ c : Char, 0x80 ≤ c.toNat ∧ String.utf8EncodeChar c = [a, b, d] := by
  have valid : ((a.toNat - 0xe0) * 4096 + (b.toNat - 0x80) * 64 + (d.toNat - 0x80)).isValidChar := by
    unfold Nat.isValidChar
    omega
  obtain ⟨c, value⟩ := char_of valid
  refine ⟨c, by omega, ?_⟩
  rw [utf8EncodeChar_three (by omega) (by omega), ofNat_eq (b := a) (by omega), ofNat_eq (b := b) (by omega),
    ofNat_eq (b := d) (by omega)]

theorem char_of_four {a b d e : UInt8} (lead : 0xf0 ≤ a.toNat ∧ a.toNat < 0xf5) (second : 0x80 ≤ b.toNat ∧ b.toNat < 0xc0)
    (third : 0x80 ≤ d.toNat ∧ d.toNat < 0xc0) (tail : 0x80 ≤ e.toNat ∧ e.toNat < 0xc0)
    (long : a.toNat = 0xf0 → 0x90 ≤ b.toNat) (past : a.toNat = 0xf4 → b.toNat < 0x90) :
    ∃ c : Char, 0x80 ≤ c.toNat ∧ String.utf8EncodeChar c = [a, b, d, e] := by
  have valid : ((a.toNat - 0xf0) * 262144 + (b.toNat - 0x80) * 4096 + (d.toNat - 0x80) * 64 + (e.toNat - 0x80)).isValidChar := by
    unfold Nat.isValidChar
    omega
  obtain ⟨c, value⟩ := char_of valid
  refine ⟨c, by omega, ?_⟩
  rw [utf8EncodeChar_four (by omega), ofNat_eq (b := a) (by omega), ofNat_eq (b := b) (by omega),
    ofNat_eq (b := d) (by omega), ofNat_eq (b := e) (by omega)]

/-- Every byte of a character past ASCII is past ASCII. -/
theorem utf8EncodeChar_high {c : Char} (high : 0x80 ≤ c.toNat) : ∀ b ∈ String.utf8EncodeChar c, 0x80 ≤ b := by
  have range := char_range c
  have byte : ∀ n, 0x80 ≤ n → n < 0x100 → (0x80 : UInt8) ≤ UInt8.ofNat n := by
    intro n least most
    rw [UInt8.le_iff_toNat_le, UInt8.toNat_ofNat_of_lt' most]
    exact least
  by_cases two : c.toNat < 0x800
  · rw [utf8EncodeChar_two high two]
    simp only [List.forall_mem_cons]
    exact ⟨byte _ (by omega) (by omega), byte _ (by omega) (by omega), by simp⟩
  · by_cases three : c.toNat < 0x10000
    · rw [utf8EncodeChar_three (by omega) three]
      simp only [List.forall_mem_cons]
      exact ⟨byte _ (by omega) (by omega), byte _ (by omega) (by omega), byte _ (by omega) (by omega), by simp⟩
    · rw [utf8EncodeChar_four (by omega)]
      simp only [List.forall_mem_cons]
      exact ⟨byte _ (by omega) (by omega), byte _ (by omega) (by omega), byte _ (by omega) (by omega),
        byte _ (by omega) (by omega), by simp⟩

theorem utf8EncodeChar_of_byte {b : UInt8} (ascii : b < 128) :
    ∃ c : Char, String.utf8EncodeChar c = [b] ∧ c.toNat = b.toNat := by
  have small : b.toNat < 128 := ascii
  obtain ⟨c, value⟩ := char_of (.inl (by omega : b.toNat < 0xd800))
  exact ⟨c, by rw [utf8EncodeChar_ascii (by omega), value, UInt8.ofNat_toNat], value⟩

theorem Utf8.cons {b : UInt8} {rest : List UInt8} (ascii : b < 128) (others : Utf8 rest) : Utf8 (b :: rest) := by
  obtain ⟨c, encoded, _⟩ := utf8EncodeChar_of_byte ascii
  rw [← List.singleton_append, ← encoded]
  exact (Utf8.char c).append others

theorem utf8_ascii {bytes : List UInt8} (ascii : ∀ b ∈ bytes, b < 128) : Utf8 bytes := by
  induction bytes with
  | nil => exact Utf8.nil
  | cons b rest ih =>
      exact Utf8.cons (ascii b List.mem_cons_self) (ih fun c held => ascii c (List.mem_cons_of_mem _ held))

theorem ascii_of_all {bytes : List UInt8} (ascii : (bytes.all fun b => b < 128) = true) : ∀ b ∈ bytes, b < 128 := by
  simpa only [List.all_eq_true, decide_eq_true_eq] using ascii

theorem utf8_literal {bytes : List UInt8} (ascii : (bytes.all fun b => b < 128) = true) : Utf8 bytes :=
  utf8_ascii (ascii_of_all ascii)

/-! The grammar of RFC 3629: `UTF8-char`, an alternative for each range of its first byte, and `UTF8-octets`. -/

def Utf8Tail (b : UInt8) : Prop := 0x80 ≤ b ∧ b ≤ 0xbf

inductive Utf8Sequence : List UInt8 → Prop
  | one {a : UInt8} : a ≤ 0x7f → Utf8Sequence [a]
  | two {a b : UInt8} : 0xc2 ≤ a → a ≤ 0xdf → Utf8Tail b → Utf8Sequence [a, b]
  | e0 {b d : UInt8} : 0xa0 ≤ b → b ≤ 0xbf → Utf8Tail d → Utf8Sequence [0xe0, b, d]
  | e1ec {a b d : UInt8} : 0xe1 ≤ a → a ≤ 0xec → Utf8Tail b → Utf8Tail d → Utf8Sequence [a, b, d]
  | ed {b d : UInt8} : 0x80 ≤ b → b ≤ 0x9f → Utf8Tail d → Utf8Sequence [0xed, b, d]
  | eeef {a b d : UInt8} : 0xee ≤ a → a ≤ 0xef → Utf8Tail b → Utf8Tail d → Utf8Sequence [a, b, d]
  | f0 {b d e : UInt8} : 0x90 ≤ b → b ≤ 0xbf → Utf8Tail d → Utf8Tail e → Utf8Sequence [0xf0, b, d, e]
  | f1f3 {a b d e : UInt8} : 0xf1 ≤ a → a ≤ 0xf3 → Utf8Tail b → Utf8Tail d → Utf8Tail e → Utf8Sequence [a, b, d, e]
  | f4 {b d e : UInt8} : 0x80 ≤ b → b ≤ 0x8f → Utf8Tail d → Utf8Tail e → Utf8Sequence [0xf4, b, d, e]

inductive Utf8Octets : List UInt8 → Prop
  | nil : Utf8Octets []
  | char {first rest : List UInt8} : Utf8Sequence first → Utf8Octets rest → Utf8Octets (first ++ rest)

theorem Utf8Sequence.char {bytes : List UInt8} (sequence : Utf8Sequence bytes) :
    ∃ c : Char, bytes = String.utf8EncodeChar c := by
  cases sequence with
  | one ascii =>
      obtain ⟨c, encoded, _⟩ := utf8EncodeChar_of_byte (UInt8.lt_of_le_of_lt ascii (by decide))
      exact ⟨c, encoded.symm⟩
  | two least most tail =>
      simp only [Utf8Tail, UInt8.le_iff_toNat_le, UInt8.reduceToNat] at least most tail
      obtain ⟨c, _, encoded⟩ := char_of_two ⟨least, by omega⟩ ⟨tail.1, by omega⟩
      exact ⟨c, encoded.symm⟩
  | @e0 b d least most tail =>
      simp only [Utf8Tail, UInt8.le_iff_toNat_le, UInt8.reduceToNat] at least most tail
      obtain ⟨c, _, encoded⟩ := char_of_three (a := 0xe0) (b := b) (d := d) (by decide) ⟨by omega, by omega⟩
        ⟨tail.1, by omega⟩ (fun _ => least) fun other => absurd other (by decide)
      exact ⟨c, encoded.symm⟩
  | @ed b d least most tail =>
      simp only [Utf8Tail, UInt8.le_iff_toNat_le, UInt8.reduceToNat] at least most tail
      obtain ⟨c, _, encoded⟩ := char_of_three (a := 0xed) (b := b) (d := d) (by decide) ⟨by omega, by omega⟩
        ⟨tail.1, by omega⟩ (fun other => absurd other (by decide)) (fun _ => by omega)
      exact ⟨c, encoded.symm⟩
  | @e1ec a b d least most second tail | @eeef a b d least most second tail =>
      simp only [Utf8Tail, UInt8.le_iff_toNat_le, UInt8.reduceToNat] at least most second tail
      obtain ⟨c, _, encoded⟩ := char_of_three (a := a) (b := b) (d := d) ⟨by omega, by omega⟩ ⟨second.1, by omega⟩
        ⟨tail.1, by omega⟩ (by omega) (by omega)
      exact ⟨c, encoded.symm⟩
  | @f0 b d e least most third tail =>
      simp only [Utf8Tail, UInt8.le_iff_toNat_le, UInt8.reduceToNat] at least most third tail
      obtain ⟨c, _, encoded⟩ := char_of_four (a := 0xf0) (b := b) (d := d) (e := e) (by decide) ⟨by omega, by omega⟩
        ⟨third.1, by omega⟩ ⟨tail.1, by omega⟩ (fun _ => least) fun other => absurd other (by decide)
      exact ⟨c, encoded.symm⟩
  | @f4 b d e least most third tail =>
      simp only [Utf8Tail, UInt8.le_iff_toNat_le, UInt8.reduceToNat] at least most third tail
      obtain ⟨c, _, encoded⟩ := char_of_four (a := 0xf4) (b := b) (d := d) (e := e) (by decide) ⟨by omega, by omega⟩
        ⟨third.1, by omega⟩ ⟨tail.1, by omega⟩ (fun other => absurd other (by decide)) (fun _ => by omega)
      exact ⟨c, encoded.symm⟩
  | @f1f3 a b d e least most second third tail =>
      simp only [Utf8Tail, UInt8.le_iff_toNat_le, UInt8.reduceToNat] at least most second third tail
      obtain ⟨c, _, encoded⟩ := char_of_four (a := a) (b := b) (d := d) (e := e) ⟨by omega, by omega⟩
        ⟨second.1, by omega⟩ ⟨third.1, by omega⟩ ⟨tail.1, by omega⟩ (by omega) (by omega)
      exact ⟨c, encoded.symm⟩

theorem le_ofNat {a : UInt8} {n : Nat} (le : a.toNat ≤ n) (small : n < 0x100) : a ≤ UInt8.ofNat n := by
  rw [UInt8.le_iff_toNat_le, UInt8.toNat_ofNat_of_lt' small]
  exact le

theorem ofNat_le {a : UInt8} {n : Nat} (le : n ≤ a.toNat) : UInt8.ofNat n ≤ a := by
  rw [UInt8.le_iff_toNat_le, UInt8.toNat_ofNat_of_lt' (Nat.lt_of_le_of_lt le a.toNat_lt)]
  exact le

theorem utf8Sequence_char (c : Char) : Utf8Sequence (String.utf8EncodeChar c) := by
  have range := char_range c
  have tail : ∀ n < 64, Utf8Tail (UInt8.ofNat (0x80 + n)) := by
    intro n small
    have least : (0x80 : UInt8).toNat ≤ 0x80 + n := Nat.le_add_right _ _
    have most : 0x80 + n ≤ (0xbf : UInt8).toNat := show 0x80 + n ≤ 0xbf by omega
    exact ⟨le_ofNat least (by omega), ofNat_le most⟩
  have last := tail (c.toNat % 64) (Nat.mod_lt _ (by decide))
  have third := tail (c.toNat / 64 % 64) (Nat.mod_lt _ (by decide))
  have second := tail (c.toNat / 4096 % 64) (Nat.mod_lt _ (by decide))
  by_cases ascii : c.toNat < 0x80
  · rw [utf8EncodeChar_ascii ascii]
    exact .one (ofNat_le (show c.toNat ≤ 0x7f by omega))
  by_cases two : c.toNat < 0x800
  · rw [utf8EncodeChar_two (by omega) two]
    exact .two (le_ofNat (show 0xc2 ≤ _ by omega) (by omega)) (ofNat_le (show _ ≤ 0xdf by omega)) last
  by_cases three : c.toNat < 0x10000
  · rw [utf8EncodeChar_three (by omega) three]
    by_cases e0 : c.toNat / 4096 = 0
    · rw [e0]
      exact .e0 (le_ofNat (show 0xa0 ≤ _ by omega) (by omega)) third.2 last
    by_cases ed : c.toNat / 4096 = 0xd
    · rw [ed]
      exact .ed third.1 (ofNat_le (show _ ≤ 0x9f by omega)) last
    by_cases low : c.toNat / 4096 < 0xd
    · exact .e1ec (le_ofNat (show 0xe1 ≤ _ by omega) (by omega)) (ofNat_le (show _ ≤ 0xec by omega)) third last
    · exact .eeef (le_ofNat (show 0xee ≤ _ by omega) (by omega)) (ofNat_le (show _ ≤ 0xef by omega)) third last
  · rw [utf8EncodeChar_four (by omega)]
    by_cases f0 : c.toNat / 262144 = 0
    · rw [f0]
      exact .f0 (le_ofNat (show 0x90 ≤ _ by omega) (by omega)) second.2 third last
    by_cases f4 : c.toNat / 262144 = 4
    · rw [f4]
      exact .f4 second.1 (ofNat_le (show _ ≤ 0x8f by omega)) third last
    · exact .f1f3 (le_ofNat (show 0xf1 ≤ _ by omega) (by omega)) (ofNat_le (show _ ≤ 0xf3 by omega)) second third last

theorem utf8_octets {bytes : List UInt8} : Utf8 bytes ↔ Utf8Octets bytes := by
  constructor
  · rintro ⟨chars, rfl⟩
    induction chars with
    | nil => exact .nil
    | cons c chars ih => exact .char (utf8Sequence_char c) ih
  · intro octets
    induction octets with
    | nil => exact Utf8.nil
    | char sequence _ ih =>
        obtain ⟨c, rfl⟩ := sequence.char
        exact (Utf8.char c).append ih

/-- The text with `mark` for each byte that begins no sequence where it stands. -/
inductive Utf8Repaired (mark : List UInt8) : List UInt8 → List UInt8 → Prop
  | nil : Utf8Repaired mark [] []
  | sequence {first rest out : List UInt8} : Utf8Sequence first → Utf8Repaired mark rest out →
      Utf8Repaired mark (first ++ rest) (first ++ out)
  | stray {b : UInt8} {rest out : List UInt8} : (∀ first, Utf8Sequence first → ¬first <+: b :: rest) →
      Utf8Repaired mark rest out → Utf8Repaired mark (b :: rest) (mark ++ out)

end Budyk.Lib
